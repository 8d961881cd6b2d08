import ImageGateway.Archive.Batch
import ImageGateway.Proofs.Record.Documents

/-!
# What is read of requests and answers

A written answer gives back its images (`batchImages_compact`). The parameters that are read of a
request are in order and nested at most as deep as a document may be
(`requestParameters_sorted_and_nesting`); the record of an image has the same parameters but for the
seed, and is read back as itself if they are not nested deeper than a ledger allows
(`reread_recordOf_iff`).
-/

set_option autoImplicit false

namespace ImageGateway.Archive

open Json

variable {parameters : Members}

/-! ## Answers -/

/-- The answer that consists of images. -/
def answerOf (images : List String) : Value :=
  .object [("images", .array (images.map .string))]

theorem mapM_string? (texts : List String) :
    (texts.map Value.string).mapM Value.string? = some texts := by
  induction texts with
  | nil => rfl
  | cons t texts ih =>
    rw [List.map_cons, List.mapM_cons, ih]
    rfl

theorem readTexts_spaced {s : Spacing} (hs : s.IsBlank) (level : Nat) (texts : List String)
    (rest : Bytes) :
    readTexts ((Value.array (texts.map .string)).spaced s level ++ rest) = some (texts, rest) := by
  cases texts with
  | nil =>
    rw [List.map_nil, Value.spaced, List.cons_append, readTexts, List.cons_append,
      List.nil_append, listing_close 93 rfl]
  | cons t texts =>
    have strings : ∀ v ∈ (t :: texts).map Value.string, ∀ rest, EndsNumber rest →
        string? (v.spaced s (level + 1) ++ rest) = v.string?.map fun x => (x, rest) := by
      intro v hv rest _
      obtain ⟨x, -, rfl⟩ := List.mem_map.mp hv
      exact string?_stringText x rest
    rw [List.map_cons] at strings
    have read := listing_spacedItems hs level string? Value.string? rest _ _ strings
    rw [← List.map_cons, mapM_string?] at read
    simp only [List.map_cons, Value.spaced, List.cons_append, readTexts, List.append_assoc,
      List.nil_append] at read ⊢
    exact read

/-- A written answer gives back its images. -/
theorem batchImages_compact (images : List String) :
    batchImages (answerOf images).compact = images := by
  have field : ∀ m ∈ [("images", Value.array (images.map .string))], ∀ rest, EndsNumber rest →
      batchField m.1 (m.2.spaced .none 1 ++ rest)
        = (some (some images)).map fun x => (x, rest) := by
    intro m hm rest _
    obtain rfl := List.mem_singleton.mp hm
    rw [batchField, if_pos rfl, readTexts_spaced isBlank_none 1 images rest]
    rfl
  have fields := listing_spacedMembers isBlank_none 0 batchField (fun _ => some (some images)) []
    _ [] field
  have read : readBatch ((answerOf images).spaced .none 0) = some (images, []) := by
    rw [readBatch, answerOf, Value.spaced, Json.fields]
    simp only [List.append_assoc] at fields ⊢
    rw [fields]
    rfl
  rw [batchImages, compact_eq_spaced _ 0]
  have whole := Record.whole?_of_eq_map (o := some images)
    (startsItem_spaced .none 0 (answerOf images)) read
  rw [whole]
  rfl

/-! ## Requests -/

/-- A written value is parsed as what it is read back as. -/
theorem parse?_compact (v : Value) : parse? v.compact = v.reread maxDepth := by
  have read := value_spaced isBlank_none v 0 maxDepth [] endsNumber_nil
  rw [List.append_nil] at read
  rw [parse?, compact_eq_spaced v 0]
  exact Record.whole?_of_eq_map (startsItem_spaced .none 0 v) read

/-- The parameters of a request are in order, and no deeper than a document may be. -/
theorem requestParameters_sorted_and_nesting (body : Bytes) :
    (Value.object (requestParameters body)).IsSorted ∧
      (Value.object (requestParameters body)).nesting ≤ maxDepth := by
  have empty : (Value.object []).IsSorted ∧ (Value.object []).nesting ≤ maxDepth :=
    ⟨⟨List.Pairwise.nil, trivial⟩, by decide⟩
  rw [requestParameters]
  cases hparsed : parse? body with
  | none => exact empty
  | some v =>
    obtain ⟨bs, rest, hvalue⟩ := Record.of_whole? hparsed
    obtain ⟨sorted, shallow⟩ := isSorted_and_nesting_le_of_value maxDepth bs v rest hvalue
    cases v with
    | object members => exact ⟨sorted, shallow⟩
    | _ => exact empty

/-! ## Records of images -/

/-- The numbers in the parameters are read back as themselves. -/
def IsStable (parameters : Members) : Prop :=
  ∀ n ∈ (Value.object parameters).numbers, n.reread = some n

theorem isStable_of_isWord
    (h : ∀ n ∈ (Value.object parameters).numbers, n.isWord = true) : IsStable parameters :=
  fun n hn => reread_of_isWord (h n hn)

/-- The parameters that are kept for an image: those of the request, or with another seed. -/
theorem taskData_recordOf (parameters : Members) (genTime : UInt64) (id : RecordId)
    (token : Record.CacheToken) (image : Bytes) :
    (recordOf parameters genTime id token image).taskData = parameters ∨
      ∃ seed, (recordOf parameters genTime id token image).taskData
        = Members.insert "seed" (.ofWord seed) parameters := by
  rw [recordOf]
  cases Seed.find? image with
  | none => exact .inl rfl
  | some seed => exact .inr ⟨seed, rfl⟩

theorem isSorted_insert (key : String) {v : Value} (hv : v.IsSorted)
    (h : (Value.object parameters).IsSorted) :
    (Value.object (Members.insert key v parameters)).IsSorted := by
  obtain ⟨ordered, sorted⟩ := h
  refine ⟨inOrder_insert key v ordered, membersSorted_iff.mpr fun m hm => ?_⟩
  rcases mem_insert hm with rfl | hm
  · exact hv
  · exact membersSorted_iff.mp sorted m hm

theorem nesting_insert_le (key : String) {v : Value} (hv : v.nesting = 0) :
    (Value.object (Members.insert key v parameters)).nesting
      ≤ (Value.object parameters).nesting := by
  refine Nat.succ_le_succ (membersNesting_le.mpr fun m hm => ?_)
  rcases mem_insert hm with rfl | hm
  · simp [hv]
  · exact membersNesting_le.mp (Nat.le_refl _) m hm

theorem isStable_insert_ofWord (key : String) (seed : UInt64) (h : IsStable parameters) :
    IsStable (Members.insert key (.ofWord seed) parameters) := by
  intro n hn
  obtain ⟨m, hm, hn⟩ := mem_membersNumbers.mp hn
  rcases mem_insert hm with rfl | hm
  · have reread := Record.reread_ofWord seed 0
    rw [Value.ofWord] at reread hn
    obtain rfl : n = .integer seed.toNat := by simpa [Value.numbers] using hn
    rw [Value.reread] at reread
    obtain ⟨m, hm, same⟩ := Option.map_eq_some_iff.mp reread
    rw [hm, Value.number.inj same]
  · exact h n (mem_membersNumbers.mpr ⟨m, hm, hn⟩)

/-- The record of an image is in order and stable like the parameters, and no deeper. -/
theorem taskData_recordOf_facts (genTime : UInt64) (id : RecordId) (token : Record.CacheToken)
    (image : Bytes) (hsorted : (Value.object parameters).IsSorted) (hstable : IsStable parameters) :
    (Value.object (recordOf parameters genTime id token image).taskData).IsSorted ∧
      IsStable (recordOf parameters genTime id token image).taskData ∧
      (Value.object (recordOf parameters genTime id token image).taskData).nesting
        ≤ (Value.object parameters).nesting := by
  rcases taskData_recordOf parameters genTime id token image with same | ⟨seed, same⟩
  · rw [same]
    exact ⟨hsorted, hstable, Nat.le_refl _⟩
  · rw [same]
    exact ⟨isSorted_insert "seed" trivial hsorted, isStable_insert_ofWord "seed" seed hstable,
      nesting_insert_le "seed" rfl⟩

/-- The record of an image is read back as itself if and only if its parameters are not nested too
deep. -/
theorem reread_recordOf_iff (genTime : UInt64) (id : RecordId) (token : Record.CacheToken)
    (image : Bytes) (hsorted : (Value.object parameters).IsSorted) (hstable : IsStable parameters) :
    (recordOf parameters genTime id token image).reread
        = some (recordOf parameters genTime id token image) ↔
      (Value.object (recordOf parameters genTime id token image).taskData).nesting
        ≤ Record.listedDepth := by
  obtain ⟨sorted, stable, -⟩ := taskData_recordOf_facts genTime id token image hsorted hstable
  exact Record.reread_eq_some_iff sorted stable

end ImageGateway.Archive
