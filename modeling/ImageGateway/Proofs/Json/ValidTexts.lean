import ImageGateway.Proofs.Json.Texts

/-!
# Valid texts

A text may be valid without the value being allowed, or any value at all (`IsText`): it may be nested
too deep, or hold half of a pair of code units. Such a text is stepped over (`takes_skip_of_isText`),
and the reader of values takes the whole of it or fails, whatever follows (`takes_of_isText`). Every way
to write a value is a valid text (`Spells.isText`).
-/

set_option autoImplicit false

namespace ImageGateway.Json

/-! ## Valid texts of strings

A valid text of a string need not hold one: half of a pair of code units stands for no character, and
the bytes that stand for themselves need not be those of characters. -/

/-- The bytes of a string after its opening quote, up to the closing one: bytes that stand for
themselves and escapes. -/
inductive IsStringBody : Bytes → Prop where
  | nil : IsStringBody []
  | plain {b : UInt8} {bs : Bytes} (hb : IsPlain b) (h : IsStringBody bs) : IsStringBody (b :: bs)
  | letter {e b : UInt8} {bs : Bytes} (hb : letterEscape? e = some b) (h : IsStringBody bs) :
      IsStringBody (92 :: e :: bs)
  | digits {ds bs : Bytes} {unit : Nat} (hds : IsCodeUnit ds unit) (h : IsStringBody bs) :
      IsStringBody (92 :: 117 :: (ds ++ bs))

/-- The valid texts of strings. -/
def IsStringText (text : Bytes) : Prop := ∃ body, IsStringBody body ∧ text = 34 :: (body ++ [34])

theorem IsStringBody.append_plain {bs more : Bytes} (hbs : ∀ b ∈ bs, IsPlain b)
    (h : IsStringBody more) : IsStringBody (bs ++ more) := by
  induction bs with
  | nil => exact h
  | cons b bs ih =>
    obtain ⟨one, others⟩ := List.forall_mem_cons.mp hbs
    exact .plain one (ih others)

theorem SpellsChars.isStringBody {cs : List Char} {bs : Bytes} (h : SpellsChars cs bs) :
    IsStringBody bs := by
  induction h with
  | nil => exact .nil
  | cons h _ ih =>
    cases h with
    | plain hquote hbackslash hcontrol =>
      exact .append_plain (isPlain_of_mem hquote hbackslash hcontrol) ih
    | letter hb => exact .letter hb ih
    | unit h => exact .digits h ih
    | pair h h' =>
      have both := IsStringBody.digits h (.digits h' ih)
      simpa using both

theorem SpellsString.isStringText {s : String} {text : Bytes} (h : SpellsString s text) :
    IsStringText text := by
  obtain ⟨body, spells, rfl⟩ := h
  exact ⟨body, spells.isStringBody, rfl⟩

/-! ## Reading a valid text of a string -/

/-- The second half of a pair does not come first. -/
theorem unicodeEscape?_trail {ds : Bytes} {unit : Nat} (h : IsCodeUnit ds unit) (htrail : IsTrail unit)
    (rest : Bytes) : unicodeEscape? (ds ++ rest) = none := by
  rw [unicodeEscape?, codeUnit?_of_isCodeUnit h]
  simp [htrail.1, htrail.2]

/-- The first half of a pair does not stand without digits behind it. -/
theorem unicodeEscape?_lead {ds : Bytes} {unit : Nat} (h : IsCodeUnit ds unit) (hlead : IsLead unit)
    {rest : Bytes} (hrest : ∀ more, rest ≠ 92 :: 117 :: more) :
    unicodeEscape? (ds ++ rest) = none := by
  have noTrail : ¬ 0xDC00 ≤ unit := Nat.not_le.mpr (Nat.lt_of_le_of_lt hlead.2 (by decide))
  rw [unicodeEscape?, codeUnit?_of_isCodeUnit h]
  simp [noTrail, hlead.1, hlead.2]

/-- The first half of a pair does not stand before anything but the second. -/
theorem unicodeEscape?_unpaired {ds ds' : Bytes} {lead unit : Nat} (h : IsCodeUnit ds lead)
    (h' : IsCodeUnit ds' unit) (hlead : IsLead lead) (hunit : ¬ IsTrail unit) (rest : Bytes) :
    unicodeEscape? (ds ++ (92 :: 117 :: (ds' ++ rest))) = none := by
  have noTrail : ¬ 0xDC00 ≤ lead := Nat.not_le.mpr (Nat.lt_of_le_of_lt hlead.2 (by decide))
  rw [IsTrail] at hunit
  rw [unicodeEscape?, codeUnit?_of_isCodeUnit h]
  simp [noTrail, hlead.1, hlead.2, codeUnit?_of_isCodeUnit h', hunit]

/-- The reader of strings takes a body as a whole, or fails whatever follows it. -/
def TakesBody (bs : Bytes) : Prop :=
  ∃ o : Option Bytes, ∀ clock done rest : Bytes, bs.length < clock.length →
    stringBytes? clock done (bs ++ 34 :: rest) = o.map fun read => (done.reverse ++ read, rest)

namespace TakesBody

theorem nil : TakesBody [] := by
  refine ⟨some [], fun clock done rest enough => ?_⟩
  cases clock with
  | nil => simp at enough
  | cons k clock => simpa using stringBytes?_quote k clock done rest

/-- Some bytes that are read in one step as others are put before what is read of the rest. -/
theorem step {bs : Bytes} (front read : Bytes) (hsome : front ≠ [])
    (hstep : ∀ (k : UInt8) (clock done rest : Bytes),
      stringBytes? (k :: clock) done (front ++ rest)
        = stringBytes? clock (read.reverse ++ done) rest)
    (h : TakesBody bs) : TakesBody (front ++ bs) := by
  obtain ⟨o, hread⟩ := h
  refine ⟨o.map (read ++ ·), fun clock done rest enough => ?_⟩
  have one := List.length_pos_iff.mpr hsome
  rw [List.length_append] at enough
  cases clock with
  | nil => simp at enough
  | cons k clock =>
    rw [List.length_cons] at enough
    rw [List.append_assoc, hstep, hread clock _ _ (by omega)]
    cases o <;> simp

/-- An escape that stands for no character is not read. -/
theorem none {ds bs : Bytes} (h : ∀ rest, unicodeEscape? (ds ++ (bs ++ 34 :: rest)) = Option.none) :
    TakesBody (92 :: 117 :: (ds ++ bs)) := by
  refine ⟨Option.none, fun clock done rest enough => ?_⟩
  cases clock with
  | nil => simp at enough
  | cons k clock => simp [stringBytes?, h rest]

theorem unicode {ds bs : Bytes} {c : Char}
    (hread : ∀ rest, unicodeEscape? (ds ++ rest) = some (c, rest)) (h : TakesBody bs) :
    TakesBody (92 :: 117 :: (ds ++ bs)) :=
  h.step (92 :: 117 :: ds) (String.utf8EncodeChar c) (List.cons_ne_nil _ _)
    fun k clock done rest => stringBytes?_unicode (hread rest) k clock done

end TakesBody

/-- The first half of a pair is taken with the second, if that comes next; by itself it stands for
nothing. -/
theorem takesBody_of_isLead {ds bs : Bytes} {unit : Nat} (hds : IsCodeUnit ds unit)
    (hlead : IsLead unit) (h : IsStringBody bs)
    (ih : ∀ more : Bytes, more.length < bs.length → IsStringBody more → TakesBody more) :
    TakesBody (92 :: 117 :: (ds ++ bs)) := by
  -- the cases are what may come next: the end, a byte for itself, an escape by letter or by digits
  cases h with
  | nil => exact .none fun rest => unicodeEscape?_lead hds hlead (by simp)
  | @plain b bs hb h =>
    exact .none fun rest => unicodeEscape?_lead hds hlead fun more same =>
      hb.2.1 (List.cons.inj same).1
  | @letter e b bs hb h =>
    exact .none fun rest => unicodeEscape?_lead hds hlead fun more same =>
      ne_of_letterEscape? hb (List.cons.inj (List.cons.inj same).2).1
  | @digits ds' bs unit' hds' h =>
    by_cases htrail : IsTrail unit'
    · have more := ih bs (by simp only [List.length_cons, List.length_append]; omega) h
      have pair := more.unicode fun rest => by
        have read := unicodeEscape?_pair hds hds' hlead htrail rest
        rwa [← List.cons_append, ← List.cons_append, ← List.append_assoc] at read
      simpa using pair
    · refine .none fun rest => ?_
      have failed := unicodeEscape?_unpaired hds hds' hlead htrail (bs ++ 34 :: rest)
      simpa using failed

/-- The induction is on the length, since the two halves of a pair are taken at once. -/
theorem takesBody_of_isStringBody (n : Nat) :
    ∀ {bs : Bytes}, bs.length = n → IsStringBody bs → TakesBody bs := by
  induction n using Nat.strongRecOn with
  | ind n ih =>
    intro bs size h
    cases h with
    | nil => exact .nil
    | @plain b bs hb h =>
      rw [List.length_cons] at size
      exact (ih bs.length (by omega) rfl h).step [b] [b]
        (List.cons_ne_nil _ _) (stringBytes?_plain hb)
    | @letter e b bs hb h =>
      rw [List.length_cons, List.length_cons] at size
      exact (ih bs.length (by omega) rfl h).step [92, e] [b]
        (List.cons_ne_nil _ _) (stringBytes?_letter (ne_of_letterEscape? hb) hb)
    | @digits ds bs unit hds h =>
      simp only [List.length_cons, List.length_append] at size
      by_cases htrail : IsTrail unit
      · exact .none fun rest => unicodeEscape?_trail hds htrail _
      by_cases hlead : IsLead unit
      · exact takesBody_of_isLead hds hlead h fun more shorter => ih more.length (by omega) rfl
      · exact (ih bs.length (by omega) rfl h).unicode (unicodeEscape?_unit hds hlead htrail)

/-- The reader of strings takes a valid text as a whole, or fails whatever follows it. -/
theorem string?_of_isStringText {text : Bytes} (h : IsStringText text) :
    ∃ o : Option String, ∀ rest, string? (text ++ rest) = o.map fun s => (s, rest) := by
  obtain ⟨body, valid, rfl⟩ := h
  obtain ⟨o, read⟩ := takesBody_of_isStringBody body.length rfl valid
  refine ⟨o.bind Bytes.toString?, fun rest => ?_⟩
  have whole := read (body ++ 34 :: rest) [] rest (by simp)
  have text : 34 :: (body ++ [34]) ++ rest = 34 :: (body ++ 34 :: rest) := by simp
  rw [text, string?, whole]
  cases o <;> simp

theorem skipString_plain {b : UInt8} (h : IsPlain b) (rest : Bytes) :
    skipString (b :: rest) = skipString rest := by
  obtain ⟨notQuote, notBackslash, notControl⟩ := h
  rw [skipString.eq_def]
  simp only [notQuote, notBackslash, notControl, ↓reduceIte]

theorem skipString_letter {e b : UInt8} (h : letterEscape? e = some b) (rest : Bytes) :
    skipString (92 :: e :: rest) = skipString rest := by
  have notDigits := ne_of_letterEscape? h
  rw [skipString.eq_def]
  simp [notDigits, h]

theorem skipString_digits {ds : Bytes} {unit : Nat} (h : IsCodeUnit ds unit) (rest : Bytes) :
    skipString (92 :: 117 :: (ds ++ rest)) = skipString rest := by
  obtain ⟨a, b, c, d, w, x, y, z, rfl, ha, hb, hc, hd, -⟩ := h
  rw [skipString.eq_def]
  simp [ha, hb, hc, hd]

theorem skipString_of_isStringBody {body : Bytes} (h : IsStringBody body) (rest : Bytes) :
    skipString (body ++ 34 :: rest) = some rest := by
  induction h with
  | nil =>
    rw [List.nil_append, skipString.eq_def]
    rfl
  | plain hb _ ih =>
    rw [List.cons_append, skipString_plain hb]
    exact ih
  | letter hb _ ih =>
    rw [List.cons_append, List.cons_append, skipString_letter hb]
    exact ih
  | digits hds _ ih =>
    rw [List.cons_append, List.cons_append, List.append_assoc, skipString_digits hds]
    exact ih

/-! ## Valid texts of values -/

/-- The valid texts of values, however deep they are nested. -/
inductive IsText : Bytes → Prop where
  | null : IsText [110, 117, 108, 108]
  | true : IsText [116, 114, 117, 101]
  | false : IsText [102, 97, 108, 115, 101]
  | number {text : NumberText} {bs : Bytes} (h : text.Spells bs)
      (hzero : hasLeadingZero text.whole = false) : IsText bs
  | string {bs : Bytes} (h : IsStringText bs) : IsText bs
  | array {bs : Bytes} (texts : List Bytes) (h : ∀ t ∈ texts, IsText t) (hlists : Lists texts bs) :
      IsText (91 :: (bs ++ [93]))
  | object {bs : Bytes} (members : List (Bytes × Bytes)) (h : ∀ m ∈ members, IsText m.1)
      (hwritten : ∀ m ∈ members, IsMember IsStringText m.1 m.2)
      (hlists : Lists (members.map Prod.snd) bs) : IsText (123 :: (bs ++ [125]))

theorem IsText.startsItem {text : Bytes} (h : IsText text) : StartsItem text := by
  cases h with
  | null => exact startsItem_letter (.inl rfl) _
  | true => exact startsItem_letter (.inr (.inl rfl)) _
  | false => exact startsItem_letter (.inr (.inr rfl)) _
  | number h => exact h.startsItem
  | string h =>
    obtain ⟨body, -, rfl⟩ := h
    exact startsItem_quote _
  | array => exact startsItem_square _
  | object => exact startsItem_curly _

theorem MemberText.IsWritten.isMember {m : MemberText} (h : m.IsWritten) :
    IsMember IsStringText m.value m.text := by
  obtain ⟨keyText, before, after, spells, blanks⟩ := h
  exact ⟨keyText, before, after, spells.isStringText, blanks⟩

theorem Spells.isText {depth : Nat} {v : Value} {text : Bytes} (h : Spells depth v text) :
    IsText text := by
  induction h with
  | null => exact .null
  | true => exact .true
  | false => exact .false
  | number _ h hzero => exact .number h hzero
  | string _ h => exact .string h.isStringText
  | array items _ hlists ih =>
    refine .array _ (fun t ht => ?_) hlists
    obtain ⟨i, hi, rfl⟩ := List.mem_map.mp ht
    exact ih i hi
  | object members _ hwritten hlists ih =>
    refine .object (members.map fun m => (m.2.value, m.2.text)) (fun t ht => ?_) (fun t ht => ?_) ?_
    · obtain ⟨m, hm, rfl⟩ := List.mem_map.mp ht
      exact ih m hm
    · obtain ⟨m, hm, rfl⟩ := List.mem_map.mp ht
      exact (hwritten m hm).isMember
    · rwa [List.map_map]

theorem IsMember.startsItem {key : Bytes → Prop} {value text : Bytes} (h : IsMember key value text)
    (hkey : ∀ k, key k → ∃ body, k = 34 :: body) : StartsItem text := by
  obtain ⟨keyText, before, after, hk, -, -, rfl⟩ := h
  obtain ⟨body, rfl⟩ := hkey keyText hk
  exact startsItem_quote _

/-- A member with a valid key is taken as a whole if its value is, whatever the key turns out to be. -/
theorem takes_member_of_isMember {α : Type} {value text : Bytes}
    (h : IsMember IsStringText value text) {named : String → Reader α}
    (hvalue : ∀ key, TakesWhole (named key) value) : TakesWhole (member named) text := by
  have starts := h.startsItem fun k hk => by
    obtain ⟨body, -, rfl⟩ := hk
    exact ⟨_, rfl⟩
  obtain ⟨keyText, before, after, hkey, hbefore, hafter, rfl⟩ := h
  obtain ⟨o, read⟩ := string?_of_isStringText hkey
  -- if the key resolves to no text, reading fails here whatever the value is
  have front : ∀ rest, member named
      (keyText ++ (before ++ 58 :: (after ++ value)) ++ rest)
      = o.bind fun key => named key (value ++ rest) := by
    intro rest
    have colon : skipBlanks (before ++ 58 :: (after ++ (value ++ rest)))
        = 58 :: (after ++ (value ++ rest)) := skipBlanks_append_cons hbefore rfl _
    have behind := skipBlanks_append_startsItem hafter (hvalue "").starts rest
    rw [List.append_assoc, List.append_assoc, List.cons_append, List.append_assoc, member, read]
    cases o with
    | none => rfl
    | some key => simp [colon, behind]
  refine (takesWhole_of_eq (o := o.bind fun key => alone (named key) value) starts
    fun rest ends => ?_).1
  rw [front]
  cases o with
  | none => rfl
  | some key => exact (hvalue key).whole rest ends

/-- The reader of values takes a valid text as a whole, or fails whatever follows it. -/
theorem takes_of_isText {text : Bytes} (h : IsText text) :
    ∀ depth, TakesWhole (value depth) text := by
  -- without depth left, arrays and objects are refused at their bracket; otherwise each part is
  -- taken
  -- as a whole or refused
  induction h with
  | null => exact fun depth => (takes_of_spells (.null depth)).1
  | true => exact fun depth => (takes_of_spells (.true depth)).1
  | false => exact fun depth => (takes_of_spells (.false depth)).1
  | number h hzero => exact fun depth => (takes_number h hzero depth).1
  | string h =>
    intro depth
    obtain ⟨o, read⟩ := string?_of_isStringText h
    refine (takesWhole_of_eq (o := o.map .string) (IsText.string h).startsItem fun rest _ => ?_).1
    have one := read rest
    obtain ⟨body, -, rfl⟩ := h
    rw [List.cons_append] at one ⊢
    rw [value_string, one]
    cases o <;> rfl
  | array texts h hlists ih =>
    intro depth
    cases depth with
    | zero => exact (takesWhole_of_eq (o := none) (IsText.array texts h hlists).startsItem
        fun rest _ => by rw [value.eq_def]; rfl).1
    | succ depth => exact (takes_array hlists fun t ht => ih t ht depth).1
  | object members h hwritten hlists ih =>
    intro depth
    cases depth with
    | zero => exact (takesWhole_of_eq (o := none) (IsText.object members h hwritten hlists).startsItem
        fun rest _ => by rw [value.eq_def]; rfl).1
    | succ depth =>
      refine (takes_object hlists fun t ht => ?_).1
      obtain ⟨m, hm, rfl⟩ := List.mem_map.mp ht
      exact takes_member_of_isMember (hwritten m hm) fun key =>
        (takes_memberValue key (ih m hm depth)).1

/-! ## Stepping over valid texts -/

theorem skipUpTo_array (depth : Nat) (bs : Bytes) :
    skipUpTo (depth + 1) (91 :: bs)
      = (listing 93 (skipUpTo depth) bs).map fun r => ((), r.2) := by
  rw [skipUpTo]
  rfl

theorem skipUpTo_object (depth : Nat) (bs : Bytes) :
    skipUpTo (depth + 1) (123 :: bs)
      = (listing 125 (skipMember (skipUpTo depth)) bs).map fun r => ((), r.2) := by
  rw [skipUpTo]
  rfl

theorem skipUpTo_string (depth : Nat) (bs : Bytes) :
    skipUpTo depth (34 :: bs) = (skipString bs).map fun rest => ((), rest) := by
  rw [skipUpTo.eq_def]
  rfl

theorem skipUpTo_number (depth : Nat) {b : UInt8} (h : startsNumber b = true) (bs : Bytes) :
    skipUpTo depth (b :: bs) = (numberText? (b :: bs)).map fun r => ((), r.2) := by
  obtain ⟨-, -, -, notNull, notTrue, notFalse, notQuote⟩ := startsNumber_facts h
  rw [skipUpTo.eq_def]
  simp only [notNull, notTrue, notFalse, notQuote, h, ↓reduceIte]

/-- An item is no longer than what it stands in. -/
theorem Lists.length_le_of_mem {texts : List Bytes} {bs : Bytes} (h : Lists texts bs) :
    ∀ t ∈ texts, t.length ≤ bs.length := by
  have padded : ∀ {text padded : Bytes}, Padded text padded → text.length ≤ padded.length := by
    rintro text padded ⟨before, after, -, -, rfl⟩
    simp only [List.length_append]
    omega
  induction h with
  | none => exact fun t ht => absurd ht List.not_mem_nil
  | last h =>
    intro t ht
    obtain rfl := List.mem_singleton.mp ht
    exact padded h
  | comma h _ ih =>
    intro t ht
    rw [List.length_append, List.length_cons]
    rcases List.mem_cons.mp ht with rfl | ht
    · have first := padded h
      omega
    · have more := ih t ht
      omega

theorem IsMember.length_le {key : Bytes → Prop} {value text : Bytes} (h : IsMember key value text) :
    value.length ≤ text.length := by
  obtain ⟨keyText, before, after, -, -, -, rfl⟩ := h
  simp only [List.length_append, List.length_cons]
  omega

/-- A member is stepped over if its value is. -/
theorem takes_skipMember {value text : Bytes} (h : IsMember IsStringText value text)
    {skipValue : Reader Unit}
    (hvalue : TakesWhole skipValue value ∧ alone skipValue value = some ()) :
    TakesWhole (skipMember skipValue) text ∧ alone (skipMember skipValue) text = some () := by
  have starts := h.startsItem fun k hk => by
    obtain ⟨body, -, rfl⟩ := hk
    exact ⟨_, rfl⟩
  obtain ⟨takes, skipped⟩ := hvalue
  obtain ⟨keyText, before, after, ⟨body, valid, rfl⟩, hbefore, hafter, rfl⟩ := h
  refine takesWhole_of_eq starts fun rest ends => ?_
  have read := takes.whole rest ends
  have key := skipString_of_isStringBody valid (before ++ 58 :: (after ++ (value ++ rest)))
  have colon : skipBlanks (before ++ 58 :: (after ++ (value ++ rest)))
      = 58 :: (after ++ (value ++ rest)) := skipBlanks_append_cons hbefore rfl _
  have behind := skipBlanks_append_startsItem hafter takes.starts rest
  rw [skipped] at read
  simp [skipMember, key, colon, behind, read]

theorem mapM_alone_unit {item : Reader Unit} {texts : List Bytes}
    (h : ∀ t ∈ texts, alone item t = some ()) : ∃ units, texts.mapM (alone item) = some units :=
  ⟨texts.map fun _ => (), mapM_eq_some_map h⟩

section

variable {depth : Nat} {texts : List Bytes} {bs : Bytes} (hlists : Lists texts bs)

include hlists

/-- An array is stepped over if its items are. -/
theorem takes_skipUpTo_array
    (items : ∀ t ∈ texts, TakesWhole (skipUpTo depth) t ∧ alone (skipUpTo depth) t = some ()) :
    TakesWhole (skipUpTo (depth + 1)) (91 :: (bs ++ [93])) ∧
      alone (skipUpTo (depth + 1)) (91 :: (bs ++ [93])) = some () := by
  refine takesWhole_of_eq (startsItem_square _) fun rest _ => ?_
  obtain ⟨units, read⟩ := mapM_alone_unit fun t ht => (items t ht).2
  rw [bracketed_append, skipUpTo_array,
    listing_lists (.inl rfl) hlists fun t ht => (items t ht).1, read]
  rfl

/-- An object is stepped over if its members are. -/
theorem takes_skipUpTo_object
    (members : ∀ t ∈ texts, TakesWhole (skipMember (skipUpTo depth)) t ∧
      alone (skipMember (skipUpTo depth)) t = some ()) :
    TakesWhole (skipUpTo (depth + 1)) (123 :: (bs ++ [125])) ∧
      alone (skipUpTo (depth + 1)) (123 :: (bs ++ [125])) = some () := by
  refine takesWhole_of_eq (startsItem_curly _) fun rest _ => ?_
  obtain ⟨units, read⟩ := mapM_alone_unit fun t ht => (members t ht).2
  rw [bracketed_append, skipUpTo_object,
    listing_lists (.inr rfl) hlists fun t ht => (members t ht).1, read]
  rfl

end

/-- Nesting costs at least a byte for each level, so that there is always enough depth left. -/
theorem takes_skipUpTo {text : Bytes} (h : IsText text) : ∀ depth, text.length ≤ depth →
    TakesWhole (skipUpTo depth) text ∧ alone (skipUpTo depth) text = some () := by
  induction h with
  | null | true | false =>
    intro depth _
    refine takesWhole_of_eq (startsItem_cons _ rfl (by decide) (by decide)) fun rest _ => ?_
    rw [skipUpTo.eq_def]
    rfl
  | number h hzero =>
    intro depth _
    refine takesWhole_of_eq h.startsItem fun rest ends => ?_
    have read := numberText?_of_spells h ends
    obtain ⟨b, more, rfl, starts⟩ := h.eq_cons
    rw [hzero] at read
    rw [List.cons_append] at read ⊢
    rw [skipUpTo_number depth starts, read]
    rfl
  | string h =>
    intro depth _
    refine takesWhole_of_eq (IsText.string h).startsItem fun rest _ => ?_
    obtain ⟨body, valid, rfl⟩ := h
    rw [List.cons_append, List.append_assoc, skipUpTo_string]
    have skipped := skipString_of_isStringBody valid rest
    simp only [List.cons_append, List.nil_append, skipped]
    rfl
  | array texts h hlists ih =>
    intro depth enough
    rw [List.length_cons, List.length_append] at enough
    obtain ⟨depth, rfl⟩ : ∃ d, depth = d + 1 := ⟨depth - 1, by omega⟩
    refine takes_skipUpTo_array hlists fun t ht => ih t ht depth ?_
    have short := hlists.length_le_of_mem t ht
    omega
  | object members h hwritten hlists ih =>
    intro depth enough
    rw [List.length_cons, List.length_append] at enough
    obtain ⟨depth, rfl⟩ : ∃ d, depth = d + 1 := ⟨depth - 1, by omega⟩
    refine takes_skipUpTo_object hlists fun t ht => ?_
    have short := hlists.length_le_of_mem t ht
    obtain ⟨m, hm, rfl⟩ := List.mem_map.mp ht
    -- the value is in the member, and the member in the object
    have shorter := (hwritten m hm).length_le
    exact takes_skipMember (hwritten m hm) (ih m hm depth (by omega))

/-- A valid text is stepped over, however deep it is nested. -/
theorem takes_skip_of_isText {text : Bytes} (h : IsText text) :
    TakesWhole skip text ∧ alone skip text = some () := by
  refine takesWhole_of_eq h.startsItem fun rest ends => ?_
  -- the depth is the length of everything that is left, and so at least that of the text
  obtain ⟨takes, skipped⟩ := takes_skipUpTo h (text ++ rest).length (by
    rw [List.length_append]
    omega)
  rw [skip, takes.whole rest ends, skipped]

end ImageGateway.Json
