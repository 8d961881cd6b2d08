import ImageGateway.Archive.Numbering

/-!
# Numbers of new records

Numbering starts above the numbers of all records (`le_last_aboveRecords`) and goes upwards one by
one (`next_eq_ok`), until there is no further number of 64 bits; from then on every request for one is
refused (`numbers_count_up`).
-/

set_option autoImplicit false

namespace ImageGateway

namespace Numbering

theorem toNat_max (x y : UInt64) : (max x y).toNat = max x.toNat y.toNat := by
  by_cases below : x ≤ y
  · have value : max x y = y := by simp [max, below]
    rw [value, Nat.max_eq_right (UInt64.le_iff_toNat_le.mp below)]
  · have value : max x y = x := by simp [max, below]
    rw [UInt64.le_iff_toNat_le] at below
    rw [value, Nat.max_eq_left (Nat.le_of_not_le below)]

theorem le_foldl_max (ids : List RecordId) (start : RecordId) :
    start ≤ ids.foldl max start ∧ ∀ id ∈ ids, id ≤ ids.foldl max start := by
  induction ids generalizing start with
  | nil => exact ⟨UInt64.le_refl start, fun id hid => absurd hid List.not_mem_nil⟩
  | cons id rest ih =>
    obtain ⟨first, others⟩ := ih (max start id)
    rw [List.foldl_cons]
    have bounds : start ≤ max start id ∧ id ≤ max start id := by
      rw [UInt64.le_iff_toNat_le, UInt64.le_iff_toNat_le, toNat_max]
      exact ⟨Nat.le_max_left _ _, Nat.le_max_right _ _⟩
    refine ⟨UInt64.le_trans bounds.1 first, fun other hother => ?_⟩
    rcases List.mem_cons.mp hother with rfl | hother
    · exact UInt64.le_trans bounds.2 first
    · exact others other hother

/-- Numbering starts above the numbers of all records. -/
theorem le_last_aboveRecords {records : List Record} {r : Record} (h : r ∈ records) :
    r.id ≤ (aboveRecords records).last :=
  (le_foldl_max (records.map Record.id) 0).2 r.id (List.mem_map_of_mem h)

/-- The next number is the one after the last. -/
theorem next_eq_ok {numbering rest : Numbering} {id : RecordId}
    (h : numbering.next = .ok (id, rest)) :
    id.toNat = numbering.last.toNat + 1 ∧ rest.last = id := by
  rw [next] at h
  split at h
  · rename_i room
    obtain ⟨rfl, rfl⟩ := Prod.mk.inj (Except.ok.inj h)
    refine ⟨?_, rfl⟩
    have size : UInt64.size = 2 ^ 64 := rfl
    rw [UInt64.toNat_add, UInt64.toNat_one, Nat.mod_eq_of_lt (by omega)]
  · exact absurd h (by simp)

theorem lt_of_next {numbering rest : Numbering} {id : RecordId}
    (h : numbering.next = .ok (id, rest)) : numbering.last < id ∧ rest.last = id := by
  obtain ⟨above, last⟩ := next_eq_ok h
  refine ⟨?_, last⟩
  rw [UInt64.lt_iff_toNat_lt]
  omega

/-! ## The largest number -/

/-- Numbering starts at the largest number of a record, or at 0 if there are no records. -/
theorem last_aboveRecords (records : List Record) :
    (aboveRecords records).last = (records.map Record.id).max?.getD 0 := by
  rw [aboveRecords, above]
  cases records.map Record.id with
  | nil => rfl
  | cons id ids =>
    have first : max 0 id = id := by
      apply UInt64.toNat_inj.mp
      rw [toNat_max, UInt64.toNat_zero, Nat.zero_max]
    rw [List.foldl_cons, first, List.max?_cons']
    rfl

/-! ## Requests for numbers -/

variable {n : Numbering}

theorem asks_succ (n : Numbering) (count : Nat) :
    n.asks (count + 1) = (n.ask.1 :: (n.ask.2.asks count).1, (n.ask.2.asks count).2) := rfl

/-- A request is answered with the next number, or it is refused and changes nothing. -/
theorem ask_cases (n : Numbering) :
    (∃ id, n.ask = (.ok id, ⟨id⟩) ∧ id.toNat = n.last.toNat + 1) ∨
    (n.ask = (.error (.idsExhausted n.last), n) ∧ n.last.toNat + 1 = UInt64.size) := by
  rw [ask]
  cases hnext : n.next with
  | ok next =>
    obtain ⟨id, rest⟩ := next
    obtain ⟨number, rfl⟩ := next_eq_ok hnext
    exact .inl ⟨rest.last, rfl, number⟩
  | error e =>
    rw [next] at hnext
    split at hnext
    · exact absurd hnext nofun
    · rename_i full
      have bound := n.last.toNat_lt
      have size : UInt64.size = 18446744073709551616 := rfl
      exact .inr ⟨by rw [← Except.error.inj hnext], by omega⟩

theorem length_asks (n : Numbering) (count : Nat) : (n.asks count).1.length = count := by
  induction count generalizing n with
  | zero => rfl
  | succ count ih => rw [asks_succ, List.length_cons, ih]

/-- The answer to a request is that of the numbering after the requests before it. -/
theorem getElem?_asks {count k : Nat} (h : k < count) :
    (n.asks count).1[k]? = some (n.asks k).2.ask.1 ∧
      (n.asks (k + 1)).2 = (n.asks k).2.ask.2 := by
  -- the first request is answered by the numbering itself, the others by the one after it
  induction k generalizing n count with
  | zero =>
    obtain ⟨count, rfl⟩ := Nat.exists_eq_succ_of_ne_zero (Nat.ne_of_gt h)
    exact ⟨rfl, rfl⟩
  | succ k ih =>
    obtain ⟨count, rfl⟩ := Nat.exists_eq_succ_of_ne_zero (Nat.ne_of_gt (Nat.zero_lt_of_lt h))
    exact ih (Nat.lt_of_succ_lt_succ h)

/-- As many numbers are given out as there are requests, or as there are numbers left. -/
theorem toNat_last_asks (n : Numbering) (count : Nat) :
    (n.asks count).2.last.toNat = min (n.last.toNat + count) (UInt64.size - 1) := by
  have bound := n.last.toNat_lt
  have size : UInt64.size = 18446744073709551616 := rfl
  induction count generalizing n with
  | zero =>
    show n.last.toNat = _
    omega
  | succ count ih =>
    rw [asks_succ]
    rcases n.ask_cases with ⟨id, asked, number⟩ | ⟨asked, full⟩
    · rw [asked, ih _ id.toNat_lt]
      show min (id.toNat + count) _ = _
      omega
    · rw [asked, ih _ bound]
      omega

/-- The numbers that are given out go upwards from the last one. -/
theorem pairwise_asks (n : Numbering) (count : Nat) :
    ((n.asks count).1.filterMap Except.toOption).Pairwise (· < ·) ∧
      ∀ id ∈ (n.asks count).1.filterMap Except.toOption, n.last < id := by
  induction count generalizing n with
  | zero => exact ⟨.nil, fun id listed => absurd listed List.not_mem_nil⟩
  | succ count ih =>
    rw [asks_succ]
    rcases n.ask_cases with ⟨id, asked, number⟩ | ⟨asked, -⟩
    · -- the later numbers are counted from the one that is given out now
      obtain ⟨upwards, above⟩ := ih ⟨id⟩
      have given : n.last < id := by
        rw [UInt64.lt_iff_toNat_lt]
        omega
      rw [asked]
      refine ⟨.cons above upwards, ?_⟩
      intro other listed
      rcases List.mem_cons.mp listed with rfl | listed
      · exact given
      · exact UInt64.lt_trans given (above other listed)
    · rw [asked]
      exact ih n

/-- **Numbers are given out one after the other, and none twice.** Requests for numbers above those of
some records are answered with the numbers from the largest one on, as long as they have 64 bits; every
later request is refused, with the largest number of 64 bits as the last one in use, and leaves the
numbering as it is. The numbers given out go upwards and are above those of all records. -/
theorem numbers_count_up (records : List Record) (count : Nat) :
    ((aboveRecords records).asks count).1.length = count ∧
    (∀ k < count, ((records.map Record.id).max?.getD 0).toNat + k + 1 < UInt64.size →
      ∃ id, ((aboveRecords records).asks count).1[k]? = some (.ok id) ∧
        id.toNat = ((records.map Record.id).max?.getD 0).toNat + k + 1) ∧
    (∀ k < count, UInt64.size ≤ ((records.map Record.id).max?.getD 0).toNat + k + 1 →
      ((aboveRecords records).asks count).1[k]? = some (.error (.idsExhausted 18446744073709551615)) ∧
        ((aboveRecords records).asks (k + 1)).2 = ((aboveRecords records).asks k).2) ∧
    (((aboveRecords records).asks count).1.filterMap Except.toOption).Pairwise (· < ·) ∧
    ∀ id ∈ ((aboveRecords records).asks count).1.filterMap Except.toOption,
      ∀ r ∈ records, r.id < id := by
  rw [← last_aboveRecords]
  have size : UInt64.size = 18446744073709551616 := rfl
  obtain ⟨upwards, above⟩ := (aboveRecords records).pairwise_asks count
  refine ⟨length_asks _ count, ?_, ?_, upwards, ?_⟩
  · intro k hk room
    obtain ⟨answer, -⟩ := getElem?_asks (n := aboveRecords records) hk
    have number := (aboveRecords records).toNat_last_asks k
    rcases ((aboveRecords records).asks k).2.ask_cases with ⟨id, asked, next⟩ | ⟨-, full⟩
    · exact ⟨id, by rw [answer, asked], by omega⟩
    · -- there is room: the last number is not the largest one
      omega
  · intro k hk beyond
    obtain ⟨answer, after⟩ := getElem?_asks (n := aboveRecords records) hk
    have number := (aboveRecords records).toNat_last_asks k
    rcases ((aboveRecords records).asks k).2.ask_cases with ⟨id, -, next⟩ | ⟨asked, full⟩
    · -- the requests before have used up all numbers
      have bound := id.toNat_lt
      omega
    · have largest : ((aboveRecords records).asks k).2.last = 18446744073709551615 := by
        apply UInt64.toNat_inj.mp
        have value : (18446744073709551615 : UInt64).toNat = UInt64.size - 1 := rfl
        omega
      exact ⟨by rw [answer, asked, largest], by rw [after, asked]⟩
  · intro id listed r hr
    exact UInt64.lt_of_le_of_lt (le_last_aboveRecords hr) (above id listed)

/-- The last number but one, and a smaller one. -/
def lastButOne : List Record := [⟨"", [], 0, 18446744073709551614, none⟩, ⟨"", [], 0, 3, none⟩]

theorem numbers_count_up_lastButOne :
    (∃ id, ((aboveRecords lastButOne).asks 3).1[0]? = some (.ok id) ∧
      id.toNat = 18446744073709551615) ∧
    ((aboveRecords lastButOne).asks 3).1[1]? = some (.error (.idsExhausted 18446744073709551615)) ∧
    ((aboveRecords lastButOne).asks 3).1[2]? = some (.error (.idsExhausted 18446744073709551615)) ∧
    ((aboveRecords lastButOne).asks 3).2 = ((aboveRecords lastButOne).asks 2).2 := by
  obtain ⟨-, given, refused, -, -⟩ := numbers_count_up lastButOne 3
  have highest : ((lastButOne.map Record.id).max?.getD 0).toNat = 18446744073709551614 := by
    decide +kernel
  rw [highest] at given refused
  obtain ⟨second, -⟩ := refused 1 (by decide) (by decide)
  obtain ⟨third, kept⟩ := refused 2 (by decide) (by decide)
  exact ⟨given 0 (by decide) (by decide), second, third, kept⟩

end Numbering

end ImageGateway
