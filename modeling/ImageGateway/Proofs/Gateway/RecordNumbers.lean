import ImageGateway.Proofs.Decimal.Words
import ImageGateway.Proofs.Gateway.Histories
import ImageGateway.Proofs.Text.Blanks

/-!
# Record numbers in bodies

A body gives a record number exactly if it is a text that consists, but for white space around it, of an
optional plus sign and digits with this value (`recordIdOf?_eq_some_iff`). A request to change a record
is refused if its body gives none, before the file tree is touched (`record_numbers`).
-/

set_option autoImplicit false

namespace ImageGateway

open Storage (FileTree Disk)
open Http (Request Response)
open Text (IsTrimmed isBlank)

variable {body : Bytes} {n : RecordId} {before after digits : List Char} {c : Config}
  {x : Circumstances} {r : Request} {t : FileTree} {p : Project}

/-- A body gives a number: it is the text of an optional plus sign and digits with the value of the
number, with white space around it. -/
def GivesNumber (body : Bytes) (n : RecordId) : Prop :=
  ∃ (text : String) (sign digits : List Char), body = Bytes.ofString text ∧
    IsTrimmed text.toList (sign ++ digits) ∧ (sign = [] ∨ sign = ['+']) ∧
    Decimal.IsNumeral digits ∧ Decimal.value digits = n.toNat

theorem recordIdOf?_eq_some_iff : recordIdOf? body = some n ↔ GivesNumber body n := by
  rw [recordIdOf?, Option.bind_eq_some_iff]
  constructor
  · rintro ⟨text, spelled, read⟩
    obtain ⟨sign, digits, whole, rest⟩ := Decimal.word?_eq_some_iff.mp read
    exact ⟨text, sign, digits, Bytes.toString?_eq_some_iff.mp spelled,
      Text.isTrimmed_iff.mpr whole.symm, rest⟩
  · rintro ⟨text, sign, digits, spelled, trimmed, rest⟩
    exact ⟨text, Bytes.toString?_eq_some_iff.mpr spelled,
      Decimal.word?_eq_some_iff.mpr ⟨sign, digits, (Text.isTrimmed_iff.mp trimmed).symm, rest⟩⟩

theorem recordIdOf?_eq_none_iff : recordIdOf? body = none ↔ ¬ ∃ n, GivesNumber body n := by
  simp only [← recordIdOf?_eq_some_iff]
  exact Option.eq_none_iff_forall_not_mem.trans not_exists.symm

/-! ## Written numbers -/

theorem isBlank_of_ascii_digit {c : Char} (h : '0' ≤ c ∧ c ≤ '9') : isBlank c = false := by
  have low : 48 ≤ c.toNat := h.1
  have high : c.toNat ≤ 57 := h.2
  simp [isBlank, Text.blankRanges]
  omega

/-- Digits are all there is to a text, but for the white space around them. -/
theorem isTrimmed_of_isNumeral (h : Decimal.IsNumeral digits) (hbefore : ∀ c ∈ before, isBlank c = true)
    (hafter : ∀ c ∈ after, isBlank c = true) : IsTrimmed (before ++ digits ++ after) digits :=
  ⟨⟨before, after, rfl, hbefore, hafter⟩,
    fun c first => isBlank_of_ascii_digit (h.ascii c (List.mem_of_mem_head? first)),
    fun c last => isBlank_of_ascii_digit (h.ascii c (List.mem_of_getLast? last))⟩

/-- The decimal text of a number gives it, with any zeros in front and any white space around. -/
theorem givesNumber_digits (n : RecordId) (zeros : Nat) (hbefore : ∀ c ∈ before, isBlank c = true)
    (hafter : ∀ c ∈ after, isBlank c = true) :
    GivesNumber (Bytes.ofChars
      (before ++ (List.replicate zeros '0' ++ Decimal.digits n.toNat) ++ after)) n := by
  have numeral := Decimal.isNumeral_zeros_digits zeros n.toNat
  refine ⟨String.ofList (before ++ (List.replicate zeros '0' ++ Decimal.digits n.toNat) ++ after), [],
    List.replicate zeros '0' ++ Decimal.digits n.toNat, ?_, ?_, .inl rfl, numeral,
    Decimal.value_zeros_digits zeros n.toNat⟩
  · rw [Bytes.ofString, String.toList_ofList]
  · rw [String.toList_ofList]
    exact isTrimmed_of_isNumeral numeral hbefore hafter

/-! ## Changing a record -/

/-- The paths of requests to change a record. -/
def changingPaths : List String :=
  ["/move-gen-prev", "/move-gen-next", "/remove-gen", "/remove-generation"]

theorem status_respond_acknowledging {α : Type} (program : Disk α) (t : FileTree) :
    ((acknowledging program).respond t).1.status ≠ 400 := by
  cases run : program t with
  | ok y s =>
    have done : (Response.empty 200).status ≠ 400 := by decide
    rwa [respond_acknowledging_of_ok run]
  | error e s =>
    have failed : (GatewayError.storage e).response.status = 500 := rfl
    rw [respond_acknowledging_of_error run, failed]
    decide

/-- A request to change a record is answered by one of the changes. -/
theorem handle_of_changingPath (hmethod : r.method = "POST") (hpath : r.path ∈ changingPaths)
    (c : Config) (x : Circumstances) (t : FileTree) :
    ∃ change, (c.handle x r t).calls = [] ∧
      (c.handle x r t).response.status
        = ((Endpoint.changeRecord change c.server.maxBodyBytes r).respond t).1.status ∧
      (c.handle x r t).tree
        = ((Endpoint.changeRecord change c.server.maxBodyBytes r).respond t).2 := by
  have changes : ∃ change, c.handle x r t
      = { Config.answered r (Endpoint.changeRecord change c.server.maxBodyBytes r) t with
          response := c.withOrigins
            (Config.answered r (Endpoint.changeRecord change c.server.maxBodyBytes r)
              t).response } := by
    have asked : r.method ≠ "OPTIONS" := by rw [hmethod]; decide
    rw [Config.handle, if_neg asked, Config.route]
    simp only [changingPaths, List.mem_cons, List.not_mem_nil, or_false] at hpath
    rcases hpath with path | path | path | path <;> rw [path, hmethod]
    · exact ⟨c.archive.moveForward, rfl⟩
    · exact ⟨c.archive.moveBack, rfl⟩
    · exact ⟨c.archive.remove, rfl⟩
    · exact ⟨c.archive.remove, rfl⟩
  obtain ⟨change, same⟩ := changes
  refine ⟨change, by rw [same]; rfl, ?_, by rw [same]; rfl⟩
  rw [same, Config.status_withOrigins, status_answered]

/-- **Which bodies give a record number.** They are the texts of an optional plus sign and digits with
its value, with white space around them; the decimal text of every number of 64 bits is one of them,
with any zeros in front. A request to change a record that names a project and has a body within the limit
is answered with 400 exactly if its body gives no number, and then it has changed nothing and called
nobody. -/
theorem record_numbers :
    (∀ (body : Bytes) (n : RecordId), recordIdOf? body = some n ↔ GivesNumber body n) ∧
    (∀ (n : RecordId) (zeros : Nat) (before after : List Char),
      (∀ c ∈ before, isBlank c = true) → (∀ c ∈ after, isBlank c = true) →
      recordIdOf? (Bytes.ofChars
        (before ++ (List.replicate zeros '0' ++ Decimal.digits n.toNat) ++ after)) = some n) ∧
    ∀ (c : Config) (x : Circumstances) (r : Request) (t : FileTree) (p : Project),
      r.method = "POST" → r.path ∈ changingPaths → projectOf r.headers = .ok p →
      r.body.length ≤ c.server.maxBodyBytes.toNat →
      ((c.handle x r t).response.status = 400 ↔ ¬ ∃ n, GivesNumber r.body n) ∧
      ((¬ ∃ n, GivesNumber r.body n) → (c.handle x r t).tree = t ∧ (c.handle x r t).calls = []) := by
  refine ⟨fun body n => recordIdOf?_eq_some_iff, fun n zeros before after hbefore hafter =>
    recordIdOf?_eq_some_iff.mpr (givesNumber_digits n zeros hbefore hafter), ?_⟩
  intro c x r t p hmethod hpath hproject hlimit
  have hbody : bodyWithin c.server.maxBodyBytes r.body = .ok r.body :=
    if_neg (Nat.not_lt_of_le hlimit)
  obtain ⟨change, calls, status, tree⟩ := handle_of_changingPath hmethod hpath c x t
  -- with a project and a body within the limit, only the number is left to decide
  have run := respond_changeRecord_of_ok change hproject hbody t
  rw [← recordIdOf?_eq_none_iff, status, tree, calls, run]
  cases recordIdOf? r.body with
  | none => exact ⟨⟨fun _ => rfl, fun _ => rfl⟩, fun _ => ⟨rfl, rfl⟩⟩
  | some id => exact ⟨⟨fun refused => absurd refused (status_respond_acknowledging _ t), nofun⟩, nofun⟩

/-- A request to remove the record with the first number that has more than 64 bits. -/
def removeBeyond : Request :=
  ⟨"POST", "/remove-gen", none, [], Bytes.ofString "18446744073709551616"⟩

theorem record_numbers_removeBeyond :
    recordIdOf? (Bytes.ofChars "\u2003000184\n".toList) = some 184 ∧
      (localGateway.handle offline removeBeyond settingsAndDogs).response.status = 400 ∧
      (localGateway.handle offline removeBeyond settingsAndDogs).tree = settingsAndDogs ∧
      (localGateway.handle offline removeBeyond settingsAndDogs).calls = [] := by
  have beyond : recordIdOf? removeBeyond.body = none := by
    rw [recordIdOf?, removeBeyond, Bytes.toString?_ofString]
    decide +kernel
  have refused := recordIdOf?_eq_none_iff.mp beyond
  obtain ⟨-, written, changing⟩ := record_numbers
  obtain ⟨status, kept⟩ := changing localGateway offline removeBeyond settingsAndDogs .global rfl
    (by decide) rfl (by decide +kernel)
  have front : ∀ c ∈ ['\u2003'], isBlank c = true := fun c hc =>
    List.mem_singleton.mp hc ▸ rfl
  have back : ∀ c ∈ ['\n'], isBlank c = true := fun c hc =>
    List.mem_singleton.mp hc ▸ rfl
  exact ⟨written 184 3 ['\u2003'] ['\n'] front back, status.mpr refused, kept refused⟩

end ImageGateway
