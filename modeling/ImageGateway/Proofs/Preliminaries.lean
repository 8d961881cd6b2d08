import Mathlib.Data.List.Forall2
import Mathlib.Data.List.Nodup

/-!
# Outcomes and tables

The steps of a computation that may fail, lists whose items are computed one by one, and lists of pairs
in which a key is looked up.
-/

set_option autoImplicit false

namespace ImageGateway

/-! ## Outcomes -/

section

variable {ε α β : Type} {x : Except ε α} {b : β}

theorem bind_eq_ok {f : α → Except ε β} : x >>= f = .ok b ↔ ∃ a, x = .ok a ∧ f a = .ok b := by
  cases x with
  | error e => exact ⟨nofun, nofun⟩
  | ok a => exact ⟨fun h => ⟨a, rfl, h⟩, fun ⟨_, same, h⟩ => Except.ok.inj same ▸ h⟩

theorem map_eq_ok {f : α → β} : x.map f = .ok b ↔ ∃ a, x = .ok a ∧ f a = b := by
  cases x with
  | error e => exact ⟨nofun, nofun⟩
  | ok a =>
    exact ⟨fun h => ⟨a, rfl, Except.ok.inj h⟩,
      fun ⟨_, same, h⟩ => congrArg Except.ok (Except.ok.inj same ▸ h)⟩

end

/-! ## Lists -/

/-- Items are computed together if each one is. -/
theorem mapM_eq_some_iff {α β : Type} {f : α → Option β} {xs : List α} {ys : List β} :
    xs.mapM f = some ys ↔ List.Forall₂ (fun x y => f x = some y) xs ys := by
  induction xs generalizing ys with
  | nil =>
    rw [List.mapM_nil, List.forall₂_nil_left_iff]
    exact Option.some_inj.trans eq_comm
  | cons x xs ih =>
    rw [List.mapM_cons, List.forall₂_cons_left_iff]
    constructor
    · intro h
      obtain ⟨y, hy, h⟩ := Option.bind_eq_some_iff.mp h
      obtain ⟨more, hmore, h⟩ := Option.bind_eq_some_iff.mp h
      exact ⟨y, more, hy, ih.mp hmore, (Option.some.inj h).symm⟩
    · rintro ⟨y, more, hy, hmore, rfl⟩
      rw [hy, ih.mpr hmore]
      rfl

/-! ## Tables -/

section

variable {α β : Type} [DecidableEq α] {l : List (α × β)} {a : α} {b : β}

theorem lookup_eq_none_iff_not_mem : l.lookup a = none ↔ a ∉ l.map Prod.fst := by
  rw [List.lookup_eq_none_iff, List.mem_map]
  constructor
  · rintro h ⟨m, hm, rfl⟩
    exact absurd (h m hm) (by simp)
  · intro h m hm
    have differs : a ≠ m.1 := fun same => h ⟨m, hm, same.symm⟩
    simpa using differs

theorem mem_of_lookup (h : l.lookup a = some b) : (a, b) ∈ l := by
  obtain ⟨before, after, rfl, -⟩ := List.lookup_eq_some_iff.mp h
  simp

/-- Where no key comes twice, every pair is the one that is found under its key. -/
theorem lookup_of_mem (keys : (l.map Prod.fst).Nodup) (h : (a, b) ∈ l) : l.lookup a = some b := by
  obtain ⟨before, after, rfl⟩ := List.append_of_mem h
  have absent : before.lookup a = none := lookup_eq_none_iff_not_mem.mpr fun found => by
    rw [List.map_append, List.map_cons] at keys
    exact (List.nodup_append.mp keys).2.2 a found a List.mem_cons_self rfl
  rw [List.lookup_append, absent, List.lookup_cons_self]
  rfl

end

end ImageGateway
