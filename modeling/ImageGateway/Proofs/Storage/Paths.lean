import ImageGateway.Proofs.Storage.Walking

/-!
# Entries of directories

The path of an entry of a directory leads where the path of the directory leads, and one step further
(`locate_join`): to the entry of that name, unless this is a link that is followed.
-/

set_option autoImplicit false

namespace ImageGateway.Storage

namespace FilePath

variable {p : FilePath} {f g : String}

/-- A name that is one component of a path. -/
structure IsComponent (f : String) : Prop where
  noSlash : '/' ∉ f.toList
  notEmpty : f.toList ≠ []
  notDot : f ≠ "."
  notUp : f ≠ ".."

instance (f : String) : Decidable (IsComponent f) :=
  decidable_of_iff ('/' ∉ f.toList ∧ f.toList ≠ [] ∧ f ≠ "." ∧ f ≠ "..")
    ⟨fun h => ⟨h.1, h.2.1, h.2.2.1, h.2.2.2⟩,
      fun h => ⟨h.noSlash, h.notEmpty, h.notDot, h.notUp⟩⟩

theorem IsComponent.isName (h : IsComponent f) : FileTree.IsName f := ⟨h.notUp, h.notDot⟩

theorem segments_ne_nil (cs : List Char) : segments cs ≠ [] := by
  cases cs with
  | nil => simp [segments]
  | cons c cs =>
    rw [segments]
    split
    · simp
    · split <;> simp

theorem segments_of_not_mem {cs : List Char} (h : '/' ∉ cs) : segments cs = [cs] := by
  induction cs with
  | nil => rfl
  | cons c cs ih =>
    obtain ⟨first, others⟩ := not_or.mp (mt List.mem_cons.mpr h)
    rw [segments, if_neg (Ne.symm first), ih others]

theorem segments_append_slash (cs ds : List Char) :
    segments (cs ++ '/' :: ds) = segments cs ++ segments ds := by
  induction cs with
  | nil => rfl
  | cons c cs ih =>
    rw [List.cons_append, segments, segments, ih]
    split
    · rfl
    · cases hcs : segments cs with
      | nil => exact absurd hcs (segments_ne_nil cs)
      | cons s rest => rfl

theorem head?_ne_slash (h : IsComponent f) : f.toList.head? ≠ some '/' :=
  fun head => h.noSlash (List.mem_of_mem_head? head)

/-- The components of a path that never goes up are names of entries. -/
theorem isName_of_mem_names (hup : ".." ∉ p.names) (h : f ∈ p.names) : FileTree.IsName f := by
  obtain ⟨s, kept, rfl⟩ := List.mem_map.mp h
  have notDot : s ≠ ['.'] := by
    have : s ≠ [] ∧ s ≠ ['.'] := by simpa using (List.mem_filter.mp kept).2
    exact this.2
  refine ⟨fun up => hup (up ▸ h), fun here => notDot ?_⟩
  exact String.ofList_injective here

/-- A component is the only name of its own path. -/
theorem names_component (h : IsComponent f) : names ⟨f⟩ = [f] := by
  have notDot : f.toList ≠ ['.'] := fun same => h.notDot (String.toList_inj.mp same)
  simp [names, segments_of_not_mem h.noSlash, h.notEmpty, notDot]

theorem route_component (h : IsComponent f) : route ⟨f⟩ = [f] := by
  have notDot : f.toList ≠ ['.'] := fun same => h.notDot (String.toList_inj.mp same)
  have asks : asksForDirectory ⟨f⟩ = false := by
    simp [asksForDirectory, segments_of_not_mem h.noSlash, h.notEmpty, notDot]
  rw [route, asks, names_component h]
  rfl

theorem names_append_slash (cs ds : List Char) :
    names ⟨String.ofList (cs ++ '/' :: ds)⟩
      = names ⟨String.ofList cs⟩ ++ names ⟨String.ofList ds⟩ := by
  simp only [names, String.toList_ofList, segments_append_slash, List.filter_append,
    List.map_append]

/-- The path of an entry is text in front of its name, which takes the steps of the directory. -/
theorem text_join (p : FilePath) (h : IsComponent f) :
    ∃ front, (p.join f).text.toList = front ++ f.toList ∧
      (front = [] ∨ front.getLast? = some '/') ∧ names ⟨String.ofList front⟩ = p.names := by
  rw [join, if_neg (head?_ne_slash h)]
  split
  · rename_i ends
    exact ⟨p.text.toList, String.toList_append .., ends, by rw [String.ofList_toList]⟩
  · refine ⟨p.text.toList ++ ['/'], ?_, .inr List.getLast?_concat, ?_⟩
    · rw [String.toList_append, String.toList_append]
      rfl
    · have nothing : names ⟨String.ofList []⟩ = [] := rfl
      rw [names_append_slash, nothing, List.append_nil, String.ofList_toList]

theorem names_join (p : FilePath) (h : IsComponent f) : (p.join f).names = p.names ++ [f] := by
  have last : names ⟨String.ofList f.toList⟩ = [f] := by
    rw [String.ofList_toList, names_component h]
  have nothing : names ⟨String.ofList []⟩ = [] := rfl
  obtain ⟨front, text, ends, steps⟩ := text_join p h
  have whole : (p.join f).names = names ⟨String.ofList (front ++ f.toList)⟩ := by
    rw [← text, String.ofList_toList]
  rw [whole, ← steps]
  rcases ends with rfl | slash
  · rw [List.nil_append, last, nothing, List.nil_append]
  · obtain ⟨cs, rfl⟩ := List.getLast?_eq_some_iff.mp slash
    rw [List.append_assoc, List.singleton_append, names_append_slash, names_append_slash, last,
      nothing, List.append_nil]

/-- A name that is put behind a directory is the last component of the path. -/
theorem segments_join (p : FilePath) (h : IsComponent f) :
    ∃ front, segments (p.join f).text.toList = front ++ [f.toList] := by
  have last := segments_of_not_mem h.noSlash
  obtain ⟨front, text, ends, -⟩ := text_join p h
  rw [text]
  rcases ends with rfl | slash
  · exact ⟨[], last⟩
  · obtain ⟨cs, rfl⟩ := List.getLast?_eq_some_iff.mp slash
    refine ⟨segments cs, ?_⟩
    rw [List.append_assoc, List.singleton_append, segments_append_slash, last]

theorem endsInName_join (p : FilePath) (h : IsComponent f) : (p.join f).endsInName = true := by
  have notDot : f.toList ≠ ['.'] := fun same => h.notDot (String.toList_inj.mp same)
  obtain ⟨front, split⟩ := segments_join p h
  simp [endsInName, split, h.notEmpty, notDot]

theorem asksForDirectory_join (p : FilePath) (h : IsComponent f) :
    (p.join f).asksForDirectory = false := by
  have notDot : f.toList ≠ ['.'] := fun same => h.notDot (String.toList_inj.mp same)
  obtain ⟨front, split⟩ := segments_join p h
  simp [asksForDirectory, split, h.notEmpty, notDot]

theorem names_ne_nil_of_endsInName (h : p.endsInName = true) : p.names ≠ [] := by
  rw [endsInName] at h
  split at h
  · rename_i s last
    obtain ⟨listed, filled⟩ := List.mem_filter.mp (List.mem_of_getLast? last)
    have kept : s ∈ (segments p.text.toList).filter fun s => s ≠ [] ∧ s ≠ ['.'] :=
      List.mem_filter.mpr ⟨listed, by simpa using ⟨of_decide_eq_true filled, of_decide_eq_true h⟩⟩
    exact fun none => List.ne_nil_of_mem kept (List.map_eq_nil_iff.mp none)
  · exact absurd h nofun

theorem isEmpty_of_names_ne_nil (h : p.names ≠ []) : p.text.isEmpty = false := by
  rw [Bool.eq_false_iff]
  intro empty
  have none : p.text = "" := String.isEmpty_iff.mp empty
  exact h (by rw [names, none]; rfl)

theorem isAbsolute_join (p : FilePath) (h : IsComponent f) :
    (p.join f).isAbsolute = p.isAbsolute := by
  have slash : ("/" : String).toList = ['/'] := rfl
  rw [join, if_neg (head?_ne_slash h)]
  cases hp : p.text.toList with
  | nil =>
    have front := head?_ne_slash h
    simp [isAbsolute, hp, front]
  | cons c cs =>
    split <;> simp [isAbsolute, hp]

/-- More text behind an entry is more text behind its name. -/
theorem withSuffix_join (p : FilePath) (f g : String) (h : f.toList ≠ []) :
    (p.join f).withSuffix g = p.join (f ++ g) := by
  obtain ⟨c, cs, hf⟩ := List.exists_cons_of_ne_nil h
  rw [join, join]
  have same : (f ++ g).toList.head? = f.toList.head? := by simp [hf]
  rw [same]
  split
  · rfl
  split
  · simp [withSuffix, String.append_assoc]
  · simp [withSuffix, String.append_assoc]

/-! ## Parents -/

/-- What is trimmed off the end of a text takes no step. -/
theorem names_trimmedBack (cs : List Char) :
    names ⟨String.ofList (trimmedBack cs).reverse⟩ = names ⟨String.ofList cs.reverse⟩ := by
  have here : names ⟨String.ofList ['.']⟩ = [] := rfl
  have nothing : names ⟨String.ofList []⟩ = [] := rfl
  fun_induction trimmedBack cs with
  | case1 cs ih => rw [ih, List.reverse_cons, names_append_slash, nothing, List.append_nil]
  | case2 cs ih =>
    rw [ih, List.reverse_cons, List.reverse_cons, List.append_assoc, List.singleton_append,
      names_append_slash, here, List.append_nil]
  | case3 cs => rfl

theorem trimmedBack_suffix (cs : List Char) : trimmedBack cs <:+ cs := by
  fun_induction trimmedBack cs with
  | case1 cs ih => exact ih.trans (List.suffix_cons _ _)
  | case2 cs ih => exact (ih.trans (List.suffix_cons _ _)).trans (List.suffix_cons _ _)
  | case3 cs => exact List.suffix_rfl

/-- A path and its parent start in the same directory. -/
theorem isAbsolute_parent (p : FilePath) : p.parent.isAbsolute = p.isAbsolute := by
  rw [parent]
  split
  · cases h : p.isAbsolute <;> rfl
  · rename_i filled
    -- the parent is the beginning of the text and has the same first character
    have front : (trimmedBack (p.text.toList.reverse.dropWhile (· ≠ '/'))).reverse <+:
        p.text.toList := by
      have back := (trimmedBack_suffix _).trans
        (List.dropWhile_suffix (p := (· ≠ '/')) (l := p.text.toList.reverse))
      simpa using List.reverse_prefix.mpr back
    rw [isAbsolute, isAbsolute, String.toList_ofList]
    generalize trimmedBack (p.text.toList.reverse.dropWhile (· ≠ '/')) = cs at filled front ⊢
    obtain ⟨rest, whole⟩ := front
    obtain ⟨c, front, split⟩ := List.exists_cons_of_ne_nil (mt List.reverse_eq_nil_iff.mp filled)
    rw [← whole, split]
    rfl

/-- The parent of the path of an entry takes the steps of the directory. -/
theorem names_parent_join (p : FilePath) (h : IsComponent f) :
    (p.join f).parent.names = p.names := by
  obtain ⟨front, text, ends, names⟩ := text_join p h
  -- seen from the end, the joined name is what comes before a slash
  have back : (p.join f).text.toList.reverse.dropWhile (· ≠ '/') = front.reverse := by
    have inName : ∀ c ∈ f.toList.reverse, (decide (c ≠ '/')) = true := fun c hc =>
      decide_eq_true fun slash => h.noSlash (slash ▸ List.mem_reverse.mp hc)
    rw [text, List.reverse_append, List.dropWhile_append_of_pos inName]
    rcases ends with rfl | slash
    · rfl
    · obtain ⟨cs, rfl⟩ := List.getLast?_eq_some_iff.mp slash
      rw [List.reverse_append]
      rfl
  have trimmed := names_trimmedBack front.reverse
  rw [List.reverse_reverse, names] at trimmed
  rw [← trimmed, parent, back]
  split
  · rename_i none
    rw [none]
    split <;> rfl
  · rfl

end FilePath

namespace FileTree

variable {t s : FileTree} {follow : Bool} {p : FilePath} {f : String} {loc loc' : Location}
  {names : List String}

theorem start_join (t : FileTree) (p : FilePath) (h : FilePath.IsComponent f) :
    t.start (p.join f) = t.start p := by
  rw [start, start, FilePath.isAbsolute_join p h]

/-! ## Locations -/

/-- A path that can be walked along at all. -/
structure Walkable (p : FilePath) : Prop where
  noNul : p.text.toList.contains '\x00' = false
  notEmpty : p.text.isEmpty = false
  short : p.text.utf8ByteSize < pathLimit

instance (p : FilePath) : Decidable (Walkable p) :=
  decidable_of_iff (p.text.toList.contains '\x00' = false ∧ p.text.isEmpty = false ∧
      p.text.utf8ByteSize < pathLimit)
    ⟨fun h => ⟨h.1, h.2.1, h.2.2⟩, fun h => ⟨h.noNul, h.notEmpty, h.short⟩⟩

theorem locateNames_eq_walk (h : Walkable p) :
    t.locateNames follow p names = t.walk follow mostLinks (t.start p) names := by
  rw [locateNames, h.noNul, h.notEmpty, if_neg (Nat.not_le_of_lt h.short)]
  rfl

/-- What goes wrong with a path that cannot be walked along has nothing to do with the tree. -/
theorem locateNames_error (h : ¬ Walkable p) :
    ∃ fault, ∀ (t : FileTree) (follow : Bool) (names : List String),
      t.locateNames follow p names = .error fault := by
  by_cases nul : p.text.toList.contains '\x00' = true
  · exact ⟨.nulInPath, fun t follow names => by rw [locateNames, if_pos nul]⟩
  by_cases empty : p.text.isEmpty = true
  · exact ⟨.notFound, fun t follow names => by rw [locateNames, if_neg nul, if_pos empty]⟩
  by_cases long : pathLimit ≤ p.text.utf8ByteSize
  · exact ⟨.nameTooLong, fun t follow names => by
      rw [locateNames, if_neg nul, if_neg empty, if_pos long]⟩
  · exact absurd ⟨by simpa using nul, by simpa using empty, Nat.lt_of_not_le long⟩ h

theorem walk_of_locateNames (h : t.locateNames follow p names = .ok loc) :
    Walkable p ∧ t.walk follow mostLinks (t.start p) names = .ok loc := by
  by_cases walkable : Walkable p
  · exact ⟨walkable, locateNames_eq_walk walkable ▸ h⟩
  · obtain ⟨fault, failed⟩ := locateNames_error walkable
    exact absurd ((failed t follow names).symm.trans h) (by simp)

/-! ## Where a path leads -/

/-- A path leads to a directory. -/
def LeadsTo (t : FileTree) (p : FilePath) (loc : Location) : Prop :=
  ∃ left, t.Leads mostLinks (t.start p) p.names left loc

theorem LeadsTo.keep (h : t.LeadsTo p loc) (hkeep : t.Keeps s) : s.LeadsTo p loc := by
  obtain ⟨left, led⟩ := h
  refine ⟨left, ?_⟩
  rw [start, hkeep.working]
  exact led.keep hkeep

theorem LeadsTo.unique (h : t.LeadsTo p loc) (h' : s.LeadsTo p loc') (hlinks : t.SameLinks s) :
    loc' = loc := by
  obtain ⟨left, led⟩ := h
  obtain ⟨left', led'⟩ := h'
  rw [start, hlinks.working] at led'
  exact (led.unique led' hlinks).2

/-- A path leads somewhere, or would lead there if directories were made: it does in a tree with the
same links. -/
def WouldLeadTo (t : FileTree) (p : FilePath) (loc : Location) : Prop :=
  ∃ s, t.SameLinks s ∧ s.LeadsTo p loc

theorem LeadsTo.would (h : t.LeadsTo p loc) : t.WouldLeadTo p loc := ⟨t, .refl t, h⟩

theorem WouldLeadTo.of_sameLinks (h : s.WouldLeadTo p loc) (hlinks : t.SameLinks s) :
    t.WouldLeadTo p loc := by
  obtain ⟨u, hu, led⟩ := h
  exact ⟨u, hlinks.trans hu, led⟩

/-- A path that leads somewhere would not lead anywhere else. -/
theorem LeadsTo.eq_of_would (h : t.LeadsTo p loc) (h' : t.WouldLeadTo p loc') : loc' = loc := by
  obtain ⟨s, hlinks, led⟩ := h'
  exact h.unique led hlinks

/-- The path of an entry leads on from where the path of its directory leads. -/
theorem locate_join (hf : FilePath.IsComponent f) (h : t.locate follow (p.join f) = .ok loc) :
    ∃ dir left, t.LeadsTo p dir ∧ t.walk follow left dir [f] = .ok loc := by
  obtain ⟨-, walked⟩ := walk_of_locateNames h
  rw [start_join t p hf, FilePath.names_join p hf] at walked
  obtain ⟨left, dir, led, last⟩ := leads_of_walk (List.cons_ne_nil f []) walked
  exact ⟨dir, left, ⟨left, led⟩, last⟩

/-- Where no link is in the way, an entry is where its directory is. -/
theorem eq_of_walk_one {links : Nat} {dir : Location} (hf : IsName f)
    (hlink : ∀ target, t.find? (dir ++ [f]) ≠ some (.link target))
    (h : t.walk follow links dir [f] = .ok loc) : loc = dir ++ [f] := by
  rw [walk_one ⟨hf, short_of_walk hf h⟩ hlink] at h
  exact (Except.ok.inj h).symm

/-- A walk that does not follow the last link ends where the last name is. -/
theorem eq_of_walk_one_false {links : Nat} {dir : Location} (hf : IsName f)
    (h : t.walk false links dir [f] = .ok loc) : loc = dir ++ [f] := by
  rw [walk_one_false ⟨hf, short_of_walk hf h⟩] at h
  exact (Except.ok.inj h).symm

/-- The walk to an entry goes on from where the path of its directory leads. -/
theorem Leads.locate_join {left : Nat} {dir : Location}
    (h : t.Leads mostLinks (t.start p) p.names left dir) (hf : FilePath.IsComponent f)
    (hwalk : Walkable (p.join f)) (follow : Bool) :
    t.locate follow (p.join f) = t.walk follow left dir [f] := by
  rw [locate, locateNames_eq_walk hwalk, start_join t p hf, FilePath.names_join p hf]
  exact h.walk_append (.inl (List.cons_ne_nil f []))

/-- The path of a link to another entry beside it leads to that entry, if links may still be
followed. -/
theorem Leads.locate_link {left : Nat} {dir : Location} {g : String}
    (h : t.Leads mostLinks (t.start p) p.names (left + 1) dir) (hf : FilePath.IsComponent f)
    (hwalk : Walkable (p.join f)) (short : f.utf8ByteSize ≤ longestName)
    (hlink : t.find? (dir ++ [f]) = some (.link ⟨g⟩)) (hg : FilePath.IsComponent g)
    (short' : g.utf8ByteSize ≤ longestName)
    (hend : ∀ target, t.find? (dir ++ [g]) ≠ some (.link target)) :
    t.locate true (p.join f) = .ok (dir ++ [g]) := by
  have relative : FilePath.isAbsolute ⟨g⟩ = false := by
    simpa [FilePath.isAbsolute] using FilePath.head?_ne_slash hg
  rw [h.locate_join hf hwalk, walk_link ⟨hf.isName, short⟩ hlink (.inr rfl), FileTree.jump, relative,
    FilePath.route_component hg]
  exact walk_one ⟨hg.isName, short'⟩ hend

theorem LeadsTo.walk_join {dir : Location} (h : t.LeadsTo p dir) (hf : FilePath.IsComponent f)
    (hwalk : Walkable (p.join f)) :
    ∃ left, ∀ follow, t.locate follow (p.join f) = t.walk follow left dir [f] := by
  obtain ⟨left, led⟩ := h
  exact ⟨left, led.locate_join hf hwalk⟩

/-- The path of an entry leads to its location if it is not followed over a link. -/
theorem LeadsTo.locate_join {dir : Location} (h : t.LeadsTo p dir) (hf : FilePath.IsComponent f)
    (hwalk : Walkable (p.join f)) (short : f.utf8ByteSize ≤ longestName) :
    t.locate false (p.join f) = .ok (dir ++ [f]) := by
  obtain ⟨left, walked⟩ := h.walk_join hf hwalk
  rw [walked, walk_one_false ⟨hf.isName, short⟩]

end FileTree

end ImageGateway.Storage
