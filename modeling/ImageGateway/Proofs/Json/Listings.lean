import ImageGateway.Json.Reader
import ImageGateway.Proofs.Json.Numbers
import ImageGateway.Proofs.Json.Spacing
import ImageGateway.Proofs.Preliminaries

/-!
# Items between brackets

Between two brackets stand items with commas between them, and blanks wherever they please (`Lists`).
A reader of items that makes of each text what it makes of it alone, whatever follows it
(`TakesWhole`), is led from one to the next: `listing` then reads all of them, or nothing if one of
them cannot be read (`listing_lists`). So does `row`, where each item has a reader of its own
(`row_lists`).
-/

set_option autoImplicit false

namespace ImageGateway.Json

/-! ## Blanks and what they separate -/

/-- Nothing but blanks. -/
def IsBlanks (bs : Bytes) : Prop := ∀ b ∈ bs, isBlank b = true

/-- A text with blanks around it. -/
def Padded (text padded : Bytes) : Prop :=
  ∃ before after, IsBlanks before ∧ IsBlanks after ∧ padded = before ++ (text ++ after)

/-- Texts with commas between them and blanks around each; without any text there may be blanks
too. -/
inductive Lists : List Bytes → Bytes → Prop where
  | none {blanks : Bytes} (h : IsBlanks blanks) : Lists [] blanks
  | last {text padded : Bytes} (h : Padded text padded) : Lists [text] padded
  | comma {text padded next more : Bytes} {texts : List Bytes} (h : Padded text padded)
      (hmore : Lists (next :: texts) more) : Lists (text :: next :: texts) (padded ++ 44 :: more)

/-- A text that begins neither with a blank nor with a bracket that closes something. -/
def StartsItem (text : Bytes) : Prop :=
  ∃ b rest, text = b :: rest ∧ isBlank b = false ∧ b ≠ 93 ∧ b ≠ 125

theorem isBlanks_nil : IsBlanks [] := fun _ hb => absurd hb List.not_mem_nil

theorem skipBlanks_append {blanks : Bytes} (h : IsBlanks blanks) (rest : Bytes) :
    skipBlanks (blanks ++ rest) = skipBlanks rest :=
  List.dropWhile_append_of_pos h

theorem skipBlanks_cons {b : UInt8} (h : isBlank b = false) (rest : Bytes) :
    skipBlanks (b :: rest) = b :: rest := by
  simp [skipBlanks, h]

theorem skipBlanks_startsItem {text : Bytes} (h : StartsItem text) (rest : Bytes) :
    skipBlanks (text ++ rest) = text ++ rest := by
  obtain ⟨b, more, rfl, blank, -, -⟩ := h
  exact skipBlanks_cons blank (more ++ rest)

theorem skipBlanks_append_cons {blanks : Bytes} (h : IsBlanks blanks) {b : UInt8}
    (hb : isBlank b = false) (rest : Bytes) : skipBlanks (blanks ++ b :: rest) = b :: rest := by
  rw [skipBlanks_append h, skipBlanks_cons hb]

theorem skipBlanks_append_startsItem {blanks text : Bytes} (h : IsBlanks blanks)
    (htext : StartsItem text) (rest : Bytes) :
    skipBlanks (blanks ++ (text ++ rest)) = text ++ rest := by
  rw [skipBlanks_append h, skipBlanks_startsItem htext]

theorem startsItem_cons {b : UInt8} (rest : Bytes) (hblank : isBlank b = false) (hsquare : b ≠ 93)
    (hcurly : b ≠ 125) : StartsItem (b :: rest) := ⟨b, rest, rfl, hblank, hsquare, hcurly⟩

theorem startsItem_quote (rest : Bytes) : StartsItem (34 :: rest) :=
  startsItem_cons rest rfl (by decide) (by decide)

theorem startsItem_square (rest : Bytes) : StartsItem (91 :: rest) :=
  startsItem_cons rest rfl (by decide) (by decide)

theorem startsItem_curly (rest : Bytes) : StartsItem (123 :: rest) :=
  startsItem_cons rest rfl (by decide) (by decide)

/-- The words for values begin with these letters. -/
theorem startsItem_letter {b : UInt8} (h : b = 110 ∨ b = 116 ∨ b = 102) (rest : Bytes) :
    StartsItem (b :: rest) := by
  rcases h with rfl | rfl | rfl <;> exact startsItem_cons rest rfl (by decide) (by decide)

/-- What stands between brackets, and what follows them. -/
theorem bracketed_append (first last : UInt8) (bs rest : Bytes) :
    first :: (bs ++ [last]) ++ rest = first :: (bs ++ last :: rest) := by
  rw [List.cons_append, List.append_assoc, List.cons_append, List.nil_append]

/-- No blank belongs to a number. -/
theorem endsNumber_blanks {blanks : Bytes} (h : IsBlanks blanks) {rest : Bytes}
    (hrest : EndsNumber rest) : EndsNumber (blanks ++ rest) := by
  cases blanks with
  | nil => exact hrest
  | cons b blanks =>
    have blank := h b List.mem_cons_self
    simp only [isBlank, Bool.or_eq_true, beq_iff_eq] at blank
    rcases blank with ((rfl | rfl) | rfl) | rfl <;>
      exact endsNumber_cons rfl (by decide) (by decide) (by decide) _

theorem endsNumber_comma (rest : Bytes) : EndsNumber (44 :: rest) :=
  endsNumber_cons rfl (by decide) (by decide) (by decide) rest

/-- No closing bracket belongs to a number. -/
theorem endsNumber_close {close : UInt8} (h : close = 93 ∨ close = 125) (rest : Bytes) :
    EndsNumber (close :: rest) := by
  rcases h with rfl | rfl
  · exact endsNumber_cons rfl (by decide) (by decide) (by decide) rest
  · exact endsNumber_cons rfl (by decide) (by decide) (by decide) rest

/-! ## Readers of items -/

section

variable {α β : Type} {close : UInt8} {item : Reader α} {text padded : Bytes} {texts : List Bytes}

/-- What a reader makes of a text alone. -/
def alone (item : Reader α) (text : Bytes) : Option α := (item text).map Prod.fst

/-- A reader makes of a text what it makes of it alone, whatever follows that cannot belong to a
number. -/
structure TakesWhole (item : Reader α) (text : Bytes) : Prop where
  starts : StartsItem text
  whole : ∀ rest, EndsNumber rest →
    item (text ++ rest) = (alone item text).map fun x => (x, rest)

/-- It is enough that what the reader makes of the text does not depend on what follows. -/
theorem takesWhole_of_eq {o : Option α} (hstart : StartsItem text)
    (h : ∀ rest, EndsNumber rest → item (text ++ rest) = o.map fun x => (x, rest)) :
    TakesWhole item text ∧ alone item text = o := by
  have same : alone item text = o := by
    have read := h [] endsNumber_nil
    rw [List.append_nil] at read
    rw [alone, read, Option.map_map]
    exact Option.map_id'
  refine ⟨⟨hstart, fun rest ends => ?_⟩, same⟩
  rw [same]
  exact h rest ends

/-- An item is read behind the blanks before it. -/
theorem TakesWhole.behindBlanks (h : TakesWhole item text) (hpadded : Padded text padded) :
    ∃ after, IsBlanks after ∧ ∀ rest, EndsNumber rest →
      item (skipBlanks (padded ++ rest)) = (alone item text).map fun x => (x, after ++ rest) := by
  obtain ⟨before, after, hbefore, hafter, rfl⟩ := hpadded
  refine ⟨after, hafter, fun rest ends => ?_⟩
  rw [List.append_assoc, List.append_assoc, skipBlanks_append_startsItem hbefore h.starts]
  exact h.whole _ (endsNumber_blanks hafter ends)

/-- The last item is followed by the closing bracket. -/
theorem itemsUntil_last (hclose : close = 93 ∨ close = 125) (h : TakesWhole item text)
    (hpadded : Padded text padded) (k : UInt8) (clock rest : Bytes) :
    itemsUntil close item (k :: clock) (padded ++ close :: rest)
      = (alone item text).map fun x => ([x], rest) := by
  obtain ⟨after, hafter, read⟩ := h.behindBlanks hpadded
  have notComma : close ≠ 44 := by rcases hclose with rfl | rfl <;> decide
  have notBlank : isBlank close = false := by rcases hclose with rfl | rfl <;> rfl
  have back := skipBlanks_append_cons hafter notBlank rest
  rw [itemsUntil, read _ (endsNumber_close hclose rest)]
  cases alone item text with
  | none => rfl
  | some x => simp [back, notComma]

/-- Any other item is followed by a comma. -/
theorem itemsUntil_comma (h : TakesWhole item text) (hpadded : Padded text padded) (k : UInt8)
    (clock more : Bytes) :
    itemsUntil close item (k :: clock) (padded ++ 44 :: more)
      = (alone item text).bind fun x =>
        (itemsUntil close item clock more).map fun r => (x :: r.1, r.2) := by
  obtain ⟨after, hafter, read⟩ := h.behindBlanks hpadded
  have back : skipBlanks (after ++ 44 :: more) = 44 :: more :=
    skipBlanks_append_cons hafter rfl more
  rw [itemsUntil, read _ (endsNumber_comma more)]
  cases alone item text with
  | none => rfl
  | some x => cases hr : itemsUntil close item clock more <;> simp [back, hr]

/-- Items are read one by one. The induction is on the list of texts; the clock has at least a byte
for every item, and reading an item takes one. -/
theorem itemsUntil_lists {bs : Bytes} (hclose : close = 93 ∨ close = 125) (hlists : Lists texts bs)
    (hsome : texts ≠ []) (hitem : ∀ t ∈ texts, TakesWhole item t) (rest : Bytes) :
    ∀ clock : Bytes, texts.length ≤ clock.length →
      itemsUntil close item clock (bs ++ close :: rest)
        = (texts.mapM (alone item)).map fun xs => (xs, rest) := by
  induction hlists with
  | none => exact absurd rfl hsome
  | last hpadded =>
    intro clock hlen
    cases clock with
    | nil => simp at hlen
    | cons k clock =>
      rw [itemsUntil_last hclose (hitem _ List.mem_cons_self) hpadded, List.mapM_cons]
      cases alone item _ <;> rfl
  | @comma text padded next more texts hpadded _ ih =>
    intro clock hlen
    cases clock with
    | nil => simp at hlen
    | cons k clock =>
      obtain ⟨one, others⟩ := List.forall_mem_cons.mp hitem
      have read := ih (List.cons_ne_nil _ _) others clock (Nat.le_of_succ_le_succ hlen)
      rw [List.append_assoc, List.cons_append, itemsUntil_comma one hpadded, read,
        List.mapM_cons (a := text)]
      cases alone item text with
      | none => rfl
      | some x => cases (next :: texts).mapM (alone item) <;> rfl

/-- There are at most as many items as bytes. -/
theorem Lists.length_le {bs : Bytes} (hlists : Lists texts bs)
    (hstart : ∀ t ∈ texts, StartsItem t) : texts.length ≤ bs.length := by
  have padded : ∀ {text padded : Bytes}, StartsItem text → Padded text padded →
      1 ≤ padded.length := by
    rintro text padded ⟨b, more, rfl, -⟩ ⟨before, after, -, -, rfl⟩
    simp only [List.length_append, List.length_cons]
    omega
  induction hlists with
  | none => exact Nat.zero_le _
  | last hpadded => exact padded (hstart _ List.mem_cons_self) hpadded
  | comma hpadded _ ih =>
    obtain ⟨one, others⟩ := List.forall_mem_cons.mp hstart
    have first := padded one hpadded
    have more := ih others
    simp only [List.length_append, List.length_cons] at more ⊢
    omega

/-- Where there are items, the first one comes behind the blanks. -/
theorem Lists.skipBlanks {bs : Bytes} (hlists : Lists texts bs) (hsome : texts ≠ [])
    (hstart : ∀ t ∈ texts, StartsItem t) (rest : Bytes) :
    ∃ b more, Json.skipBlanks (bs ++ rest) = b :: more ∧ b ≠ 93 ∧ b ≠ 125 := by
  have front : ∀ {text padded : Bytes}, StartsItem text → Padded text padded → ∀ rest,
      ∃ b more, Json.skipBlanks (padded ++ rest) = b :: more ∧ b ≠ 93 ∧ b ≠ 125 := by
    rintro text padded ⟨b, more, rfl, blank, notSquare, notCurly⟩ ⟨before, after, hbefore, -, rfl⟩
      rest
    rw [List.append_assoc, skipBlanks_append hbefore]
    exact ⟨b, _, skipBlanks_cons blank _, notSquare, notCurly⟩
  cases hlists with
  | none => exact absurd rfl hsome
  | last hpadded => exact front (hstart _ List.mem_cons_self) hpadded rest
  | comma hpadded =>
    rw [List.append_assoc]
    exact front (hstart _ List.mem_cons_self) hpadded _

/-- What stands between brackets is read item by item. -/
theorem listing_lists {bs : Bytes} (hclose : close = 93 ∨ close = 125) (hlists : Lists texts bs)
    (hitem : ∀ t ∈ texts, TakesWhole item t) (rest : Bytes) :
    listing close item (bs ++ close :: rest)
      = (texts.mapM (alone item)).map fun xs => (xs, rest) := by
  have notBlank : isBlank close = false := by rcases hclose with rfl | rfl <;> rfl
  by_cases hsome : texts = []
  · subst hsome
    cases hlists with
    | none hblanks =>
      rw [listing, skipBlanks_append_cons hblanks notBlank]
      simp
  · -- what comes behind the blanks starts an item, so that the list is not closed at once
    have starts := fun t ht => (hitem t ht).starts
    obtain ⟨b, more, front, notSquare, notCurly⟩ := hlists.skipBlanks hsome starts (close :: rest)
    have differs : b ≠ close := by rcases hclose with rfl | rfl <;> assumption
    have enough := hlists.length_le starts
    rw [listing, front]
    simp only [differs, ↓reduceIte]
    refine itemsUntil_lists hclose hlists hsome hitem rest _ ?_
    rw [List.length_append]
    omega

/-- A document is read as the text in it, if the reader takes the whole of that. -/
theorem TakesWhole.whole?_eq {doc : Bytes} (h : TakesWhole item text) (hdoc : Padded text doc) :
    item.whole? doc = alone item text := by
  obtain ⟨after, hafter, read⟩ := h.behindBlanks hdoc
  have behind := read [] endsNumber_nil
  have atEnd : atEnd (after ++ []) = true := by
    rw [Json.atEnd, skipBlanks_append hafter]
    rfl
  rw [List.append_nil] at behind
  rw [Reader.whole?, behind]
  cases alone item text with
  | none => rfl
  | some x => simp only [Option.map_some, atEnd, ↓reduceIte]

/-! ## Items in a row

Where each item has its own reader, more readers than items may be given. -/

/-- Each item in a row is read by the reader in its place. The induction is on the items. -/
theorem rowUntil_lists {xs : List β} {reader : β → Reader α} {spelled : β → Bytes} {read : β → α}
    (hitem : ∀ x ∈ xs, TakesWhole (reader x) (spelled x) ∧
      alone (reader x) (spelled x) = some (read x)) (hsome : xs ≠ [])
    {bs : Bytes} (hlists : Lists (xs.map spelled) bs) (more : List (Reader α)) (rest : Bytes) :
    rowUntil (xs.map reader ++ more) (bs ++ 93 :: rest) = some (xs.map read, rest) := by
  induction xs generalizing bs with
  | nil => exact absurd rfl hsome
  | cons x xs ih =>
    -- the last item is followed by the bracket, any other one by a comma
    obtain ⟨⟨takes, found⟩, others⟩ := List.forall_mem_cons.mp hitem
    rw [List.map_cons, List.cons_append, rowUntil]
    cases xs with
    | nil =>
      cases hlists with
      | last hpadded =>
        obtain ⟨after, hafter, behind⟩ := takes.behindBlanks hpadded
        have back : skipBlanks (after ++ 93 :: rest) = 93 :: rest :=
          skipBlanks_append_cons hafter rfl rest
        rw [behind _ (endsNumber_close (.inl rfl) rest), found]
        simp [back]
    | cons y ys =>
      cases hlists with
      | @comma _ padded _ bs _ hpadded hmore =>
        obtain ⟨after, hafter, behind⟩ := takes.behindBlanks hpadded
        have back : skipBlanks (after ++ 44 :: (bs ++ 93 :: rest)) = 44 :: (bs ++ 93 :: rest) :=
          skipBlanks_append_cons hafter rfl (bs ++ 93 :: rest)
        rw [List.append_assoc, List.cons_append, behind _ (endsNumber_comma _), found]
        simp only [Option.map_some, Option.bind_eq_bind, Option.bind_some, back]
        rw [ih others (List.cons_ne_nil y ys) hmore]
        rfl

theorem row_lists {xs : List β} {reader : β → Reader α} {spelled : β → Bytes} {read : β → α}
    (hitem : ∀ x ∈ xs, TakesWhole (reader x) (spelled x) ∧
      alone (reader x) (spelled x) = some (read x)) (hsome : xs ≠ [])
    {bs : Bytes} (hlists : Lists (xs.map spelled) bs) (more : List (Reader α)) (rest : Bytes) :
    row (xs.map reader ++ more) (bs ++ 93 :: rest) = some (xs.map read, rest) := by
  have starts : ∀ t ∈ xs.map spelled, StartsItem t := by
    intro t ht
    obtain ⟨x, hx, rfl⟩ := List.mem_map.mp ht
    exact (hitem x hx).1.starts
  obtain ⟨b, behind, front, notSquare, -⟩ :=
    hlists.skipBlanks (fun h => hsome (List.map_eq_nil_iff.mp h)) starts (93 :: rest)
  rw [row, front]
  split
  · rename_i h
    exact absurd (List.cons.inj h).1 notSquare
  · exact rowUntil_lists hitem hsome hlists more rest

/-! ## The same blanks everywhere -/

theorem mapM_map_eq {γ : Type} {f : β → γ} {g : γ → Option α} {h : β → Option α} {xs : List β}
    (same : ∀ x ∈ xs, g (f x) = h x) : (xs.map f).mapM g = xs.mapM h := by
  induction xs with
  | nil => rfl
  | cons x xs ih =>
    obtain ⟨one, others⟩ := List.forall_mem_cons.mp same
    rw [List.map_cons, List.mapM_cons, List.mapM_cons, one, ih others]

theorem mapM_eq_some_map {f : β → Option α} {g : β → α} {xs : List β}
    (h : ∀ x ∈ xs, f x = some (g x)) : xs.mapM f = some (xs.map g) :=
  mapM_eq_some_iff.mpr (List.forall₂_map_right_iff.mpr (List.forall₂_same.mpr h))

/-- Where all items are read, each one is. -/
theorem exists_of_mapM_eq_some {f : β → Option α} {xs : List β} {ys : List α}
    (h : xs.mapM f = some ys) : ∀ x ∈ xs, ∃ y, f x = some y := by
  rw [mapM_eq_some_iff] at h
  induction h with
  | nil => exact fun x hx => absurd hx List.not_mem_nil
  | cons hx _ ih => exact List.forall_mem_cons.mpr ⟨⟨_, hx⟩, ih⟩

theorem mapM_eq_none {f : β → Option α} {x : β} {xs : List β} (hx : x ∈ xs) (h : f x = none) :
    xs.mapM f = none := by
  cases all : xs.mapM f with
  | none => rfl
  | some ys =>
    obtain ⟨y, hy⟩ := exists_of_mapM_eq_some all x hx
    exact absurd (h.symm.trans hy) (by simp)

theorem lists_commaSeparated {text : β → Bytes} {before after : Bytes} (hbefore : IsBlanks before)
    (hafter : IsBlanks after) (x : β) (xs : List β) :
    Lists ((x :: xs).map text)
      (commaSeparated ((x :: xs).map fun y => before ++ text y) ++ after) := by
  induction xs generalizing x with
  | nil => exact .last ⟨before, after, hbefore, hafter, List.append_assoc _ _ _⟩
  | cons y ys ih =>
    have parts : commaSeparated ((x :: y :: ys).map fun z => before ++ text z) ++ after
        = (before ++ (text x ++ [])) ++ 44 ::
          (commaSeparated ((y :: ys).map fun z => before ++ text z) ++ after) := by
      simp [commaSeparated]
    rw [parts]
    exact .comma ⟨before, [], hbefore, isBlanks_nil, rfl⟩ (ih y)

/-- Items with the same blanks before each are read one by one. -/
theorem listing_commaSeparated {text : β → Bytes} {read : β → Option α} {before after : Bytes}
    (hclose : close = 93 ∨ close = 125) (hbefore : IsBlanks before) (hafter : IsBlanks after)
    (rest : Bytes) (x : β) (xs : List β) (hstart : ∀ y ∈ x :: xs, StartsItem (text y))
    (hitem : ∀ y ∈ x :: xs, ∀ rest, EndsNumber rest →
      item (text y ++ rest) = (read y).map fun z => (z, rest)) :
    listing close item
        (commaSeparated ((x :: xs).map fun y => before ++ text y) ++ (after ++ close :: rest))
      = ((x :: xs).mapM read).map fun zs => (zs, rest) := by
  have takes := fun y hy => takesWhole_of_eq (hstart y hy) (hitem y hy)
  have items : ∀ t ∈ (x :: xs).map text, TakesWhole item t := by
    intro t ht
    obtain ⟨y, hy, rfl⟩ := List.mem_map.mp ht
    exact (takes y hy).1
  have values := mapM_map_eq fun y hy => (takes y hy).2
  rw [← List.append_assoc, listing_lists hclose (lists_commaSeparated hbefore hafter x xs) items,
    values]

theorem listing_close (close : UInt8) (h : isBlank close = false) (item : Reader α) (rest : Bytes) :
    listing close item (close :: rest) = some ([], rest) := by
  rw [listing, skipBlanks_cons h]
  simp

end

end ImageGateway.Json
