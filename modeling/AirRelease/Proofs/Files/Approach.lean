import AirRelease.Proofs.Files.Access

namespace AirRelease

open FileTree (Proper Fits)
open AirRelease.Path (IsName)

-- The names of a path: the first ones may pass links and step back, those below go straight on.
structure Approach where
  base : Place
  root : Path
  above : List String
  here : Place
  below : List String
  split : root.names = above ++ below

namespace Approach

variable {a : Approach} {t t' : FileTree} {p old new : Path} {q : List String} {x : String}
  {follow : Bool} {bytes : ByteArray}

-- Where the path leads to if there is no link on the straight part.
def place (a : Approach) : Place :=
  a.here ++ a.below

-- The names stay on the straight part, or go on from its end.
structure Follows (a : Approach) (q : List String) : Prop where
  along : q <+: a.below ∨ a.below <+: q
  proper : ∀ name ∈ q, Proper name

-- The path can be approached in the tree.
structure Holds (a : Approach) (t : FileTree) : Prop where
  distinct : t.Distinct
  reached : t.walk true FileTree.maxLinks (a.root.start a.base) a.above = .ok a.here
  directory : t.kind a.here = some .directory
  straight : ∀ name ∈ a.below, Proper name ∧ Fits name
  plain : ∀ q, q <+: a.below ∨ a.below <+: q → ∀ target, t.kind (a.here ++ q) ≠ some (.link target)

-- A path of these names after the ones that lead to `here`.
structure Spells (a : Approach) (p : Path) (q : List String) : Prop where
  start : p.IsAbsolute ↔ a.root.IsAbsolute
  steps : ∃ dotted last, p.steps = dotted ++ [last] ∧
    dotted.filter (· ≠ ".") ++ [last] = a.above ++ q

section Spells

theorem spells_join (name : IsName x) : a.Spells (a.root.join ⟨x⟩) (a.below ++ [x]) where
  start := Path.isAbsolute_join name.whole
  steps := by
    refine ⟨a.root.filled, x, Path.steps_join name.whole name.not_empty, ?_⟩
    rw [← Path.names_eq, a.split, List.append_assoc]

theorem spells_join_join {y : String} (first : IsName x) (second : IsName y) :
    a.Spells ((a.root.join ⟨x⟩).join ⟨y⟩) (a.below ++ [x] ++ [y]) where
  start := (Path.isAbsolute_join second.whole).trans (Path.isAbsolute_join first.whole)
  steps := by
    refine ⟨(a.root.join ⟨x⟩).filled, y, Path.steps_join second.whole second.not_empty, ?_⟩
    rw [← Path.names_eq, Path.names_join first, a.split]
    simp only [List.append_assoc]

theorem spells_ofNames (names : ∀ y ∈ a.above ++ q ++ [x], IsName y) :
    a.Spells (.ofNames a.root.IsAbsolute (a.above ++ q ++ [x])) (q ++ [x]) where
  start := (Path.isAbsolute_ofNames names (by simp)).trans decide_eq_true_iff
  steps := by
    refine ⟨a.above ++ q, x, Path.steps_ofNames names (by simp), ?_⟩
    have keep : (a.above ++ q).filter (· ≠ ".") = a.above ++ q :=
      List.filter_eq_self.mpr fun y mem =>
        decide_eq_true (names y (List.mem_append_left _ mem)).not_dot
    rw [keep, List.append_assoc]

end Spells

theorem Follows.of_prefix {r : List String} (follows : a.Follows q) (pre : r <+: q) : a.Follows r where
  along := by
    rcases follows.along with along | along
    · exact .inl (pre.trans along)
    · exact List.prefix_or_prefix_of_prefix pre along
  proper y mem := follows.proper y (pre.subset mem)

namespace Holds

variable (holds : a.Holds t)
include holds

theorem straight_of (follows : a.Follows q) : t.Straight a.here q where
  proper := follows.proper
  plain _ pre target := holds.plain _ (follows.of_prefix pre).along target

theorem locate_eq (spells : a.Spells p q) (follows : a.Follows q) (ne : q ≠ []) :
    t.locate a.base follow p = p.check >>= fun _ => t.seek a.here q := by
  obtain ⟨dotted, last, steps, names⟩ := spells.steps
  obtain ⟨m, on⟩ := FileTree.walk_append holds.reached holds.directory
  have start : p.start a.base = a.root.start a.base := by simp only [Path.start, spells.start]
  rw [FileTree.locate_eq, steps, start, ← FileTree.walk_filter (List.cons_ne_nil _ _), names,
    on t (.refl t) follow q (.inl ne), FileTree.walk_eq_seek (holds.straight_of follows)]

theorem locate_eq_ok {place : Place} (spells : a.Spells p (q ++ [x])) (follows : a.Follows (q ++ [x])) :
    t.locate a.base follow p = .ok place ↔ p.check = .ok () ∧ place = a.here ++ q ++ [x] ∧
      t.kind (a.here ++ q) = some .directory ∧ ∀ y ∈ q ++ [x], Fits y := by
  rw [holds.locate_eq spells follows (by simp), bind_eq_ok]
  simp only [FileTree.seek_concat_eq_ok holds.directory]
  exact ⟨fun ⟨_, check, rest⟩ => ⟨check, rest⟩, fun ⟨check, rest⟩ => ⟨(), check, rest⟩⟩

-- Nothing but directories stands before what is missing.
theorem misses (spells : a.Spells p (q ++ [x])) (follows : a.Follows (q ++ [x])) (check : p.check = .ok ())
    (fits : ∀ y ∈ q ++ [x], Fits y)
    (clear : ∀ r, r <+: q → t.kind (a.here ++ r) = none ∨ t.kind (a.here ++ r) = some .directory)
    (free : t.kind (a.here ++ q ++ [x]) = none) : t.Misses a.base follow p := by
  by_cases folder : t.kind (a.here ++ q) = some .directory
  case pos => exact .inr ⟨_, (holds.locate_eq_ok spells follows).mpr ⟨check, rfl, folder, fits⟩, free⟩
  case neg =>
    left
    rw [holds.locate_eq spells follows (by simp), check]
    exact FileTree.seek_eq_notFound holds.directory fits clear folder

theorem read_eq_ok (spells : a.Spells p (q ++ [x])) (follows : a.Follows (q ++ [x])) :
    t.read a.base p = .ok bytes ↔ p.check = .ok () ∧ (∀ y ∈ q ++ [x], Fits y) ∧
      t.kind (a.here ++ q ++ [x]) = some (.file bytes) := by
  have bytesAt {place : Place} : t.bytesAt place = .ok bytes ↔ t.kind place = some (.file bytes) := by
    rw [FileTree.bytesAt]
    cases t.kind place with
    | none => simp
    | some k => cases k <;> simp
  rw [FileTree.read_eq, bind_eq_ok]
  simp only [holds.locate_eq_ok spells follows, bytesAt]
  constructor
  · rintro ⟨_, ⟨check, rfl, _, fits⟩, there⟩
    exact ⟨check, fits, there⟩
  · rintro ⟨check, fits, there⟩
    have folder := FileTree.kind_folder (ne_of_eq_of_ne there (Option.some_ne_none _))
    exact ⟨_, ⟨check, rfl, folder, fits⟩, there⟩

-- Changes elsewhere are not noticed.
theorem read_congr (holds' : a.Holds t') (spells : a.Spells p q) (follows : a.Follows q) (ne : q ≠ [])
    (same : ∀ r, r <+: q → t'.kind (a.here ++ r) = t.kind (a.here ++ r)) :
    t'.read a.base p = t.read a.base p := by
  rw [FileTree.read_eq, FileTree.read_eq, holds.locate_eq spells follows ne,
    holds'.locate_eq spells follows ne, FileTree.seek_congr fun r _ pre => same r pre]
  cases p.check with
  | error => rfl
  | ok =>
    cases found : t.seek a.here q with
    | error => rfl
    | ok place =>
      rw [FileTree.place_of_seek found]
      simp only [bind, Except.bind, FileTree.bytesAt, same q (List.prefix_refl q)]

-- A change of one place, other than making or following a link.
theorem update {k : Option Kind} (along : q <+: a.below ∨ a.below <+: q)
    (distinct : t'.Distinct) (leaf : t.kind (a.here ++ q) ≠ some .directory)
    (unlinked : ∀ target, k ≠ some (.link target))
    (changed : t'.kind = Function.update t.kind (a.here ++ q) k) : a.Holds t' := by
  have directory (place : Place) (there : t.kind place = some .directory) :
      t'.kind place = some .directory := by
    have ne : place ≠ a.here ++ q := fun eq => leaf (eq ▸ there)
    rw [changed, Function.update_of_ne ne, there]
  have grown : t.Grown t' := {
    directory
    link place target there := by
      have ne : place ≠ a.here ++ q := fun eq => holds.plain q along target (eq ▸ there)
      rw [changed, Function.update_of_ne ne, there]
  }
  exact {
    distinct
    reached := FileTree.walk_grown holds.reached holds.directory grown
    directory := directory _ holds.directory
    straight := holds.straight
    plain r pre target := by
      rw [changed, Function.update_apply]
      split
      case isTrue => exact unlinked target
      case isFalse => exact holds.plain r pre target
  }

variable (follows : a.Follows (q ++ [x]))
include follows

theorem put {n : Node} (folder : t.kind (a.here ++ q) = some .directory)
    (leaf : t.kind (a.here ++ q ++ [x]) ≠ some .directory) (distinct : n.Distinct) (bare : n.Bare)
    (unlinked : ∀ target, n.kind ≠ .link target) :
    a.Holds (t.put (a.here ++ q ++ [x]) n) ∧
      (t.put (a.here ++ q ++ [x]) n).kind =
        Function.update t.kind (a.here ++ q ++ [x]) (some n.kind) := by
  have changed := FileTree.kind_put holds.distinct folder leaf bare
  refine ⟨?_, changed⟩
  rw [List.append_assoc] at leaf changed ⊢
  exact holds.update follows.along (FileTree.distinct_put holds.distinct distinct _) leaf
    (fun target eq => unlinked target (Option.some.inj eq)) changed

theorem erase (folder : t.kind (a.here ++ q) = some .directory)
    (leaf : t.kind (a.here ++ q ++ [x]) ≠ some .directory) :
    a.Holds (t.erase (a.here ++ q ++ [x])) ∧
      (t.erase (a.here ++ q ++ [x])).kind = Function.update t.kind (a.here ++ q ++ [x]) none := by
  have changed := FileTree.kind_erase holds.distinct folder leaf
  refine ⟨?_, changed⟩
  rw [List.append_assoc] at leaf changed ⊢
  exact holds.update follows.along (FileTree.distinct_erase holds.distinct _) leaf (fun _ => (Option.some_ne_none _).symm) changed

end Holds

-- The system takes the path, and there is a directory for its last name.
structure Reachable (a : Approach) (t : FileTree) (p : Path) (q : List String) (x : String) : Prop where
  check : p.check = .ok ()
  fits : ∀ y ∈ q ++ [x], Fits y
  folder : t.kind (a.here ++ q) = some .directory

-- A change of an entry leaves the directory that holds it.
theorem Reachable.update {y : String} {k : Option Kind} (reach : a.Reachable t p q x)
    (changed : t'.kind = Function.update t.kind (a.here ++ q ++ [y]) k) : a.Reachable t' p q x where
  check := reach.check
  fits := reach.fits
  folder := by rw [changed, Function.update_of_ne (by simp), reach.folder]

-- One place has changed.
structure Changes (a : Approach) (t t' : FileTree) (place : Place) (k : Option Kind) : Prop where
  holds : a.Holds t'
  changed : t'.kind = Function.update t.kind place k

section Operations

variable (holds : a.Holds t) (spells : a.Spells p (q ++ [x])) (follows : a.Follows (q ++ [x]))
include holds spells follows

theorem locate_iff {place : Place} : t.locate a.base follow p = .ok place ↔
    place = a.here ++ q ++ [x] ∧ a.Reachable t p q x := by
  rw [holds.locate_eq_ok spells follows]
  exact ⟨fun ⟨check, eq, folder, fits⟩ => ⟨eq, check, fits, folder⟩,
    fun ⟨eq, check, fits, folder⟩ => ⟨check, eq, folder, fits⟩⟩

theorem write_iff : t.write a.base p bytes = .ok t' ↔
    a.Reachable t p q x ∧ t.kind (a.here ++ q ++ [x]) ≠ some .directory ∧
      t.put (a.here ++ q ++ [x]) (.file bytes) = t' := by
  simp [FileTree.write_eq_ok, locate_iff holds spells follows, and_assoc]

theorem write_changes (ok : t.write a.base p bytes = .ok t') :
    a.Changes t t' (a.here ++ q ++ [x]) (some (.file bytes)) := by
  obtain ⟨reach, leaf, rfl⟩ := (write_iff holds spells follows).mp ok
  have bare : (Node.file bytes).Bare := Node.bare_of_kind_ne nofun
  obtain ⟨holds', changed⟩ :=
    holds.put follows reach.folder leaf .file bare fun _ => Kind.noConfusion
  exact ⟨holds', changed⟩

theorem makeDirectory_iff : t.makeDirectory a.base p = .ok t' ↔
    a.Reachable t p q x ∧ t.kind (a.here ++ q ++ [x]) = none ∧
      t.put (a.here ++ q ++ [x]) (.directory []) = t' := by
  simp [FileTree.makeDirectory_eq_ok, locate_iff holds spells follows, and_assoc]

theorem makeDirectory_changes (ok : t.makeDirectory a.base p = .ok t') :
    a.Changes t t' (a.here ++ q ++ [x]) (some .directory) := by
  obtain ⟨reach, free, rfl⟩ := (makeDirectory_iff holds spells follows).mp ok
  have leaf : t.kind (a.here ++ q ++ [x]) ≠ some .directory := by rw [free]; exact nofun
  obtain ⟨holds', changed⟩ := holds.put follows reach.folder leaf Node.distinct_empty Node.bare_empty
    fun _ => Kind.noConfusion
  exact ⟨holds', changed⟩

theorem remove_iff : t.remove a.base p = .ok t' ↔
    a.Reachable t p q x ∧ t.kind (a.here ++ q ++ [x]) ≠ none ∧
      t.kind (a.here ++ q ++ [x]) ≠ some .directory ∧ t.erase (a.here ++ q ++ [x]) = t' := by
  simp [FileTree.remove_eq_ok, locate_iff holds spells follows, and_assoc]

theorem remove_changes (ok : t.remove a.base p = .ok t') :
    a.Changes t t' (a.here ++ q ++ [x]) none := by
  obtain ⟨reach, _, leaf, rfl⟩ := (remove_iff holds spells follows).mp ok
  obtain ⟨holds', changed⟩ := holds.erase follows reach.folder leaf
  exact ⟨holds', changed⟩

section Pair

variable {y : String} (spells' : a.Spells new (q ++ [y])) (follows' : a.Follows (q ++ [y]))
include spells' follows'

theorem link_iff : t.link a.base p new = .ok t' ↔
    a.Reachable t p q x ∧ a.Reachable t new q y ∧ t.kind (a.here ++ q ++ [y]) = none ∧
      ∃ n, t.at? (a.here ++ q ++ [x]) = some n ∧ t.put (a.here ++ q ++ [y]) n = t' := by
  simp only [FileTree.link_eq_ok, locate_iff holds spells follows, locate_iff holds spells' follows']
  constructor
  · rintro ⟨_, _, n, ⟨rfl, reach⟩, ⟨rfl, reach'⟩, there, free, eq⟩
    exact ⟨reach, reach', free, n, there, eq⟩
  · rintro ⟨reach, reach', free, n, there, eq⟩
    exact ⟨_, _, n, ⟨rfl, reach⟩, ⟨rfl, reach'⟩, there, free, eq⟩

theorem link_changes (file : t.kind (a.here ++ q ++ [x]) = some (.file bytes))
    (ok : t.link a.base p new = .ok t') :
    a.Changes t t' (a.here ++ q ++ [y]) (some (.file bytes)) := by
  obtain ⟨_, reach, free, n, there, rfl⟩ := (link_iff holds spells follows spells' follows').mp ok
  cases there.symm.trans (FileTree.kind_eq_file.mp file)
  have leaf : t.kind (a.here ++ q ++ [y]) ≠ some .directory := by rw [free]; exact nofun
  have bare : (Node.file bytes).Bare := Node.bare_of_kind_ne nofun
  obtain ⟨holds', changed⟩ :=
    holds.put follows' reach.folder leaf .file bare fun _ => Kind.noConfusion
  exact ⟨holds', changed⟩

theorem rename_iff : t.rename a.base p new = .ok t' ↔
    a.Reachable t p q x ∧ a.Reachable t new q y ∧ t.kind (a.here ++ q ++ [y]) ≠ some .directory ∧
      ∃ n, t.at? (a.here ++ q ++ [x]) = some n ∧
        (t.erase (a.here ++ q ++ [x])).put (a.here ++ q ++ [y]) n = t' := by
  simp only [FileTree.rename_eq_ok, locate_iff holds spells follows, locate_iff holds spells' follows']
  constructor
  · rintro ⟨_, _, n, ⟨rfl, reach⟩, ⟨rfl, reach'⟩, there, leaf, eq⟩
    exact ⟨reach, reach', leaf, n, there, eq⟩
  · rintro ⟨reach, reach', leaf, n, there, eq⟩
    exact ⟨_, _, n, ⟨rfl, reach⟩, ⟨rfl, reach'⟩, there, leaf, eq⟩

theorem rename_changes (file : t.kind (a.here ++ q ++ [x]) = some (.file bytes))
    (ok : t.rename a.base p new = .ok t') :
    a.Holds t' ∧ t'.kind = Function.update (Function.update t.kind (a.here ++ q ++ [x]) none)
      (a.here ++ q ++ [y]) (some (.file bytes)) := by
  obtain ⟨reach, _, leaf, n, there, rfl⟩ := (rename_iff holds spells follows spells' follows').mp ok
  cases there.symm.trans (FileTree.kind_eq_file.mp file)
  have bare : (Node.file bytes).Bare := Node.bare_of_kind_ne nofun
  have source : t.kind (a.here ++ q ++ [x]) ≠ some .directory := by rw [file]; exact nofun
  obtain ⟨erased, gone⟩ := holds.erase follows reach.folder source
  have folder : (t.erase (a.here ++ q ++ [x])).kind (a.here ++ q) = some .directory := by
    rw [gone, Function.update_of_ne (by simp), reach.folder]
  have target : (t.erase (a.here ++ q ++ [x])).kind (a.here ++ q ++ [y]) ≠ some .directory := by
    rw [gone, Function.update_apply]
    split
    · exact nofun
    · exact leaf
  obtain ⟨holds', changed⟩ :=
    erased.put follows' folder target .file bare fun _ => Kind.noConfusion
  exact ⟨holds', gone ▸ changed⟩

end Pair
end Operations

theorem bytesAt_seek_of_none {here : Place} {rest : List String} (none : t.kind (here ++ [x]) = none)
    (fits : Fits x) : (t.seek here (x :: rest) >>= t.bytesAt) = .error .notFound := by
  rw [FileTree.seek, if_neg (Nat.not_lt.mpr fits), none]
  by_cases last : rest = []
  case pos => simp [last, bind, Except.bind, FileTree.bytesAt, none]
  case neg => simp [last]

-- Those who read below a new directory still find nothing.
theorem read_of_new_directory {rest : List String} (holds : a.Holds t)
    (free : t.kind (a.here ++ q ++ [x]) = none) (folder : t.kind (a.here ++ q) = some .directory)
    (changes : a.Changes t t' (a.here ++ q ++ [x]) (some .directory)) (along : q ++ [x] <+: a.below)
    (spells : a.Spells p (a.below ++ rest)) (follows : a.Follows (a.below ++ rest))
    (more : rest ≠ []) (fits : ∀ y ∈ rest.head?, Fits y) :
    t'.read a.base p = t.read a.base p := by
  obtain ⟨further, split⟩ := along
  have fit (y : String) (mem : y ∈ q ++ [x]) : Fits y :=
    (holds.straight y (split ▸ List.mem_append_left _ mem)).2
  have fit' (y : String) (mem : y ∈ q) : Fits y := fit y (List.mem_append_left _ mem)
  have ne : a.below ++ rest ≠ [] := by simp [more]
  obtain ⟨z, others, next⟩ := List.exists_cons_of_ne_nil (show further ++ rest ≠ [] by simp [more])
  have names : a.below ++ rest = q ++ [x] ++ z :: others := by
    rw [← split, List.append_assoc, next]
  have next_fits : Fits z := by
    cases further with
    | nil => exact fits z (by simp [show rest = z :: others from next])
    | cons w further =>
      cases (List.cons.inj next).1
      exact (holds.straight z (split ▸ by simp)).2
  have before : (t.seek a.here (a.below ++ rest) >>= t.bytesAt) = .error .notFound := by
    rw [names, List.append_assoc, FileTree.seek_through fit' folder]
    exact bytesAt_seek_of_none free (fit x (by simp))
  have after : (t'.seek a.here (a.below ++ rest) >>= t'.bytesAt) = .error .notFound := by
    have made : t'.kind (a.here ++ (q ++ [x])) = some .directory := by
      rw [changes.changed, ← List.append_assoc, Function.update_self]
    have bare : t'.kind (a.here ++ (q ++ [x]) ++ [z]) = none := by
      have below : t.kind (a.here ++ q ++ [x] ++ [z]) = none := by
        by_contra some
        exact absurd (free.symm.trans (FileTree.kind_folder some)) nofun
      rw [changes.changed, ← List.append_assoc, Function.update_of_ne (by simp), below]
    rw [names, FileTree.seek_through fit made]
    exact bytesAt_seek_of_none bare next_fits
  rw [FileTree.read_eq, FileTree.read_eq, holds.locate_eq spells follows ne,
    changes.holds.locate_eq spells follows ne, bind_assoc, bind_assoc]
  simp only [before, after]

end Approach
end AirRelease
