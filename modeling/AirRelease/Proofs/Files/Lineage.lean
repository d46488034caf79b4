import Mathlib.Data.List.Induction
import Mathlib.Logic.Relation
import AirRelease.Proofs.Files.Host

namespace AirRelease

open FileTree (Proper Fits)
open AirRelease.Path (IsName)

namespace Disk

theorem isDirectory_eq_true {p : Path} {h : Host} :
    ((isDirectory p : StateM Host Bool) h).1 = true ↔
      ∃ place, h.files.locate h.base true p = .ok place ∧ h.files.kind place = some .directory := by
  have answer : ((isDirectory p : StateM Host Bool) h).1 = true ↔
      ∃ n, h.files.node h.base p = .ok n ∧ n.isDirectory = true := by
    simp only [isDirectory]
    split
    case h_1 n found => simp [found]
    case h_2 e failed => simp [failed]
  rw [answer]
  constructor
  case mp =>
    rintro ⟨n, found, directory⟩
    obtain ⟨place, located, there⟩ := FileTree.node_eq_ok.mp found
    refine ⟨place, located, FileTree.kind_eq_directory.mpr ?_⟩
    cases n with
    | directory es => exact ⟨es, there⟩
    | file | link => cases directory
  case mpr =>
    rintro ⟨place, located, there⟩
    obtain ⟨es, there⟩ := FileTree.kind_eq_directory.mp there
    exact ⟨.directory es, FileTree.node_eq_ok.mpr ⟨place, located, there⟩, rfl⟩

theorem settle_apply (p : Path) (r : Except Fault Unit) (h : Host) :
    (makeLineage.settle p r : StateM Host _) h =
      (if (isDirectory p : StateM Host Bool) h |>.1 then .ok () else r, h) := by
  cases r with
  | ok => simp [makeLineage.settle]
  | error e =>
    simp only [makeLineage.settle, bind_apply, pure_apply]
    rfl

section Cons

variable {p : Path} {above : List Path} {h h' : Host} {e : Fault}

theorem makeLineage_of_ok (made : (makeDirectory p : StateM Host _) h = (.ok (), h')) :
    (makeLineage (p :: above) : StateM Host _) h = (.ok (), h') := by
  simp only [makeLineage, bind_apply, made, pure_apply]

theorem makeLineage_of_error (ne : e ≠ .notFound)
    (failed : (makeDirectory p : StateM Host _) h = (.error e, h)) :
    (makeLineage (p :: above) : StateM Host _) h =
      (makeLineage.settle p (.error e) : StateM Host _) h := by
  simp only [makeLineage, bind_apply, failed]

theorem makeLineage_of_notFound (failed : (makeDirectory p : StateM Host _) h = (.error .notFound, h)) :
    (makeLineage (p :: above) : StateM Host _) h =
      match (makeLineage above : StateM Host _) h with
      | (.error e, h) => (.error e, h)
      | (.ok (), h) =>
        let (r, h) := (makeDirectory p : StateM Host _) h
        (makeLineage.settle p r : StateM Host _) h := by
  simp only [makeLineage, bind_apply, failed]
  rcases (makeLineage above : StateM Host _) h with ⟨_ | _, _⟩ <;> rfl

end Cons

theorem timeless_makeLineage (paths : List Path) : Host.Timeless (makeLineage paths) := by
  have settle (p : Path) (r : Except Fault Unit) : Host.Timeless (makeLineage.settle p r) := by
    intro h
    rw [settle_apply]
  induction paths with
  | nil => exact .pure _
  | cons p above ih =>
    refine .bind (.attempt _) fun r => ?_
    match r with
    | .ok () => exact .pure _
    | .error .notFound =>
      refine .bind ih fun r => ?_
      cases r with
      | error => exact .pure _
      | ok => exact .bind (.attempt _) fun r => settle p r
    | .error .notDirectory | .error .isDirectory | .error .alreadyExists | .error .tooManyLinks
    | .error .nameTooLong | .error .badPath | .error .notText | .error (.other _) =>
      exact settle p _

end Disk

namespace Approach

variable {a : Approach} {h h' : Host} {q : List String} {x : String} {r : Except Fault Unit}

-- The path of a directory on the way, as it is made from the names.
def way (a : Approach) (q : List String) : Path :=
  .ofNames a.root.IsAbsolute (a.above ++ q)

-- The paths to the directories on the way, the longest one first.
def ways (a : Approach) (q : List String) : List Path :=
  Path.lineage.go a.root (a.above ++ q).reverse

theorem ways_concat : a.ways (q ++ [x]) = a.way (q ++ [x]) :: a.ways q := by
  simp [ways, way, Path.lineage.go]

theorem lineage_eq {p : Path} (start : p.IsAbsolute ↔ a.root.IsAbsolute) (names : p.names = a.above ++ q) :
    p.lineage = a.ways q := by
  rw [Path.lineage, ways, names]
  induction (a.above ++ q).reverse with
  | nil => rfl
  | cons x rest ih => simp only [Path.lineage.go, start, ih]

-- A directory has been made at the last of the names.
structure Makes (a : Approach) (q : List String) (h h' : Host) : Prop where
  on : a.On h'
  split : ∃ front x, q = front ++ [x] ∧ h.files.kind (a.here ++ front) = some .directory
  free : h.files.kind (a.here ++ q) = none
  changed : h'.files.kind = Function.update h.files.kind (a.here ++ q) (some .directory)

-- Directories have been made along the names.
def MakesAlong (a : Approach) (q : List String) : Host → Host → Prop :=
  Relation.ReflTransGen fun h h' => ∃ front, front <+: q ∧ a.Makes front h h'

theorem MakesAlong.mono {q' : List String} (makes : a.MakesAlong q h h') (pre : q <+: q') :
    a.MakesAlong q' h h' :=
  Relation.ReflTransGen.mono (fun _ _ ⟨front, along, made⟩ => ⟨front, along.trans pre, made⟩) _ _ makes

theorem MakesAlong.kind (makes : a.MakesAlong q h h') (place : Place) :
    h'.files.kind place = h.files.kind place ∨
      h.files.kind place = none ∧ h'.files.kind place = some .directory ∧
        ∃ front, front <+: q ∧ place = a.here ++ front := by
  induction makes with
  | refl => exact .inl rfl
  | tail _ made ih =>
    obtain ⟨front, along, made⟩ := made
    rw [made.changed, Function.update_apply]
    split
    case isTrue at_ =>
      refine .inr ⟨?_, rfl, front, along, at_⟩
      rcases ih with same | ⟨none, _⟩
      · rw [← same, at_, made.free]
      · exact none
    case isFalse => exact ih

theorem entry_ne_way {front : List String} (pre : front <+: q) : a.here ++ front ≠ a.here ++ q ++ [x] := by
  intro same
  rw [List.append_assoc] at same
  have longer := (List.append_cancel_left same ▸ pre).length_le
  rw [List.length_append, List.length_singleton] at longer
  omega

-- What the last directory holds is not on the way.
theorem MakesAlong.kind_entry (makes : a.MakesAlong q h h') (x : String) :
    h'.files.kind (a.here ++ q ++ [x]) = h.files.kind (a.here ++ q ++ [x]) :=
  (makes.kind _).resolve_right fun ⟨_, _, _, pre, at_⟩ => entry_ne_way pre at_.symm

-- Nothing keeps the directories along the names from being made.
structure Clear (a : Approach) (q : List String) (t : FileTree) : Prop where
  check : ∀ front, front <+: q → a.above ++ front ≠ [] → (a.way front).check = .ok ()
  fits : ∀ x ∈ q, Fits x
  clear : ∀ front, front <+: q →
    t.kind (a.here ++ front) = none ∨ t.kind (a.here ++ front) = some .directory

section Way

variable (names : ∀ y ∈ a.above ++ q, IsName y) (ne : a.above ++ q ≠ [])
include names ne

omit names in
theorem ways_of_ne_nil : ∃ rest, a.ways q = a.way q :: rest := by
  obtain ⟨front, x, split⟩ := List.eq_nil_or_concat (a.above ++ q) |>.resolve_left ne
  refine ⟨Path.lineage.go a.root front.reverse, ?_⟩
  simp [ways, way, split, Path.lineage.go]

theorem locate_way {t : FileTree} (follow : Bool) : t.locate a.base follow (a.way q) =
    (a.way q).check >>= fun _ =>
      t.walk follow FileTree.maxLinks (a.root.start a.base) (a.above ++ q) := by
  have start : (a.way q).start a.base = a.root.start a.base := by
    simp only [Path.start, way, Path.isAbsolute_ofNames names ne, decide_eq_true_iff]
  rw [FileTree.locate_eq, start, way, Path.steps_ofNames names ne]

-- If the names lead to something or cannot be followed, it is not for want of a directory before the
-- last one that none is made.
theorem makeDirectory_of_stopped {t : FileTree}
    (stopped : (∃ e, e ≠ .notFound ∧
        t.walk false FileTree.maxLinks (a.root.start a.base) (a.above ++ q) = .error e) ∨
      ∃ last, t.walk false FileTree.maxLinks (a.root.start a.base) (a.above ++ q) = .ok last ∧
        t.kind last ≠ none) :
    ∃ e, e ≠ .notFound ∧ t.makeDirectory a.base (a.way q) = .error e := by
  cases check : (a.way q).check with
  | error e =>
    have lost : t.locate a.base false (a.way q) = .error e := by rw [locate_way names ne, check, error_bind]
    refine ⟨e, ?_, FileTree.makeDirectory_of_error lost⟩
    rintro rfl
    exact Path.check_ne_notFound (Path.text_ofNames_ne names ne) check
  | ok =>
    rcases stopped with ⟨e, found, lost⟩ | ⟨last, reached, there⟩
    · exact ⟨e, found, FileTree.makeDirectory_of_error (by rw [locate_way names ne, check, ok_bind, lost])⟩
    · have located : t.locate a.base false (a.way q) = .ok last := by
        rw [locate_way names ne, check, ok_bind, reached]
      exact ⟨.alreadyExists, nofun, FileTree.makeDirectory_of_ne_none located there⟩

end Way

theorem makeLineage_above (on : a.On h) (names : ∀ y ∈ a.above, IsName y) :
    ∃ r, (Disk.makeLineage (a.ways []) : StateM Host _) h = (r, h) ∧
      (a.Clear [] h.files → r = .ok ()) := by
  by_cases none : a.above = []
  case pos => exact ⟨.ok (), by simp [ways, none, Path.lineage.go, Disk.makeLineage], fun _ => rfl⟩
  have names : ∀ y ∈ a.above ++ [], IsName y := by simpa using names
  have ne : a.above ++ [] ≠ [] := by simpa using none
  have reached : h.files.walk true FileTree.maxLinks (a.root.start a.base) (a.above ++ []) = .ok a.here := by
    rw [List.append_nil, on.holds.reached]
  have ⟨e, found, failed⟩ := makeDirectory_of_stopped names ne
    (.inr (FileTree.walk_unfollowed reached on.holds.directory))
  rw [← on.base] at failed
  have ⟨rest, ways⟩ := ways_of_ne_nil ne
  rw [ways, Disk.makeLineage_of_error found (Host.attempt_error failed), Disk.settle_apply]
  refine ⟨_, rfl, fun clear => if_pos (Disk.isDirectory_eq_true.mpr ⟨a.here, ?_, on.holds.directory⟩)⟩
  rw [on.base, locate_way names ne, clear.check [] List.nil_prefix ne]
  exact reached

section Step

variable (on : a.On h) (spells : a.Spells (a.way (q ++ [x])) (q ++ [x]))
  (follows : a.Follows (q ++ [x]))
include on spells follows

theorem makeDirectory_way :
    (∃ h', (Disk.makeDirectory (a.way (q ++ [x])) : StateM Host _) h = (.ok (), h') ∧
      a.Makes (q ++ [x]) h h') ∨
    ∃ e, (Disk.makeDirectory (a.way (q ++ [x])) : StateM Host _) h = (.error e, h) ∧
      ¬(a.Reachable h.files (a.way (q ++ [x])) q x ∧
        h.files.kind (a.here ++ (q ++ [x])) = none) := by
  rw [← List.append_assoc]
  rcases makeDirectory_tries on spells follows with ⟨h', eq, on', ⟨reach, free⟩, changed⟩ | failed
  case inl =>
    rw [List.append_assoc] at free changed
    exact .inl ⟨h', eq, on', ⟨q, x, rfl, reach.folder⟩, free, changed⟩
  case inr => exact .inr failed

theorem settle_way {r : Except Fault Unit} : ∃ r',
    (Disk.makeLineage.settle (a.way (q ++ [x])) r : StateM Host _) h = (r', h) ∧
      (r' = .ok () → r = .ok () ∨ h.files.kind (a.here ++ (q ++ [x])) = some .directory) ∧
      (r = .ok () → r' = .ok ()) ∧
      (a.Reachable h.files (a.way (q ++ [x])) q x →
        h.files.kind (a.here ++ (q ++ [x])) = some .directory → r' = .ok ()) := by
  have isDirectory : ((Disk.isDirectory (a.way (q ++ [x])) : StateM Host Bool) h).1 = true ↔
      a.Reachable h.files (a.way (q ++ [x])) q x ∧
        h.files.kind (a.here ++ (q ++ [x])) = some .directory := by
    simp [Disk.isDirectory_eq_true, on.base, locate_iff on.holds spells follows]
  rw [Disk.settle_apply]
  refine ⟨_, rfl, fun ok => ?_, fun ok => by simp [ok], fun reach there => ?_⟩
  · split at ok
    case isTrue there => exact .inr (isDirectory.mp there).2
    case isFalse => exact .inl ok
  · exact if_pos (isDirectory.mpr ⟨reach, there⟩)

end Step

theorem makeDirectory_eq_notFound (on : a.On h) (spells : a.Spells (a.way (q ++ [x])) (q ++ [x]))
    (follows : a.Follows (q ++ [x])) (clear : a.Clear (q ++ [x]) h.files)
    (missing : h.files.kind (a.here ++ q) ≠ some .directory) :
    (Disk.makeDirectory (a.way (q ++ [x])) : StateM Host _) h = (.error .notFound, h) := by
  refine Host.attempt_error (FileTree.makeDirectory_of_error ?_)
  rw [on.base, on.holds.locate_eq spells follows (by simp),
    clear.check _ (List.prefix_refl _) (by simp)]
  exact FileTree.seek_eq_notFound on.holds.directory clear.fits
    (fun front pre => clear.clear front (pre.trans (List.prefix_append ..))) missing

-- With the directory before it in place, a directory that cannot be made is there already.
theorem directory_of_blocked {t t' : FileTree} (clear : a.Clear (q ++ [x]) t)
    (folder : t'.kind (a.here ++ q) = some .directory)
    (last : t'.kind (a.here ++ (q ++ [x])) = t.kind (a.here ++ (q ++ [x])))
    (blocked : ¬(a.Reachable t' (a.way (q ++ [x])) q x ∧ t'.kind (a.here ++ (q ++ [x])) = none)) :
    a.Reachable t' (a.way (q ++ [x])) q x ∧ t'.kind (a.here ++ (q ++ [x])) = some .directory := by
  have reach : a.Reachable t' (a.way (q ++ [x])) q x :=
    ⟨clear.check _ (List.prefix_refl _) (by simp), clear.fits, folder⟩
  have clear := clear.clear _ (List.prefix_refl _)
  rw [← last] at clear
  exact ⟨reach, clear.resolve_left fun free => blocked ⟨reach, free⟩⟩

theorem makeLineage_spec (on : a.On h) (names : ∀ y ∈ a.above ++ q, IsName y) (follows : a.Follows q) :
    ∃ r h', (Disk.makeLineage (a.ways q) : StateM Host _) h = (r, h') ∧ a.MakesAlong q h h' ∧ a.On h' ∧
      (r = .ok () → h'.files.kind (a.here ++ q) = some .directory) ∧
      (r ≠ .ok () → h'.files.kind (a.here ++ q) = h.files.kind (a.here ++ q)) ∧
      (a.Clear q h.files → r = .ok ()) := by
  induction q using List.reverseRecOn with
  | nil =>
    obtain ⟨r, eq, clear⟩ := makeLineage_above on (by simpa using names)
    exact ⟨r, h, eq, .refl, on, fun _ => by simpa using on.holds.directory, fun _ => rfl, clear⟩
  | append_singleton q x ih =>
    have pre : q <+: q ++ [x] := List.prefix_append ..
    have spells : a.Spells (a.way (q ++ [x])) (q ++ [x]) := by
      rw [way, ← List.append_assoc]
      exact spells_ofNames (by simpa using names)
    rw [ways_concat]
    rcases makeDirectory_way on spells follows with ⟨h', made, makes⟩ | ⟨e, failed, blocked⟩
    case inl =>
      refine ⟨.ok (), h', Disk.makeLineage_of_ok made, .single ⟨_, List.prefix_refl _, makes⟩,
        makes.on, fun _ => ?_, fun bad => absurd rfl bad, fun _ => rfl⟩
      rw [makes.changed, Function.update_self]
    by_cases missing : e = .notFound
    case neg =>
      obtain ⟨r, settled, found, _, there⟩ := settle_way on spells follows (r := .error e)
      refine ⟨r, h, (Disk.makeLineage_of_error missing failed).trans settled, .refl, on,
        fun ok => (found ok).resolve_left nofun, fun _ => rfl, fun clear => ?_⟩
      have folder : h.files.kind (a.here ++ q) = some .directory := by
        by_contra absent
        have lost := failed.symm.trans (makeDirectory_eq_notFound on spells follows clear absent)
        exact missing (Except.error.inj (Prod.mk.inj lost).1)
      obtain ⟨reach, last⟩ := directory_of_blocked clear folder rfl blocked
      exact there reach last
    case pos =>
      subst missing
      have names' (y : String) (mem : y ∈ a.above ++ q) : IsName y :=
        names y (List.append_assoc .. ▸ List.mem_append_left _ mem)
      obtain ⟨r, h₁, above, makes, on₁, there₁, _, clear₁⟩ := ih names' (follows.of_prefix pre)
      have unmade : h₁.files.kind (a.here ++ (q ++ [x])) = h.files.kind (a.here ++ (q ++ [x])) := by
        rw [← List.append_assoc]
        exact makes.kind_entry x
      have makes : a.MakesAlong (q ++ [x]) h h₁ := makes.mono pre
      have clear₁ (clear : a.Clear (q ++ [x]) h.files) : r = .ok () :=
        clear₁ ⟨fun front along => clear.check front (along.trans pre),
          fun y mem => clear.fits y (List.mem_append_left _ mem),
          fun front along => clear.clear front (along.trans pre)⟩
      rw [Disk.makeLineage_of_notFound failed, above]
      cases r with
      | error e =>
        exact ⟨_, h₁, rfl, makes, on₁, nofun, fun _ => unmade, fun clear => nomatch clear₁ clear⟩
      | ok =>
        have folder := there₁ rfl
        rcases makeDirectory_way on₁ spells follows with ⟨h₂, made, makes₂⟩ | ⟨e, failed, blocked⟩
        case inl =>
          obtain ⟨r, settled, _, kept, _⟩ := settle_way makes₂.on spells follows (r := .ok ())
          have last : h₂.files.kind (a.here ++ (q ++ [x])) = some .directory := by
            rw [makes₂.changed, Function.update_self]
          exact ⟨r, h₂, by simp only [made, settled],
            makes.tail ⟨_, List.prefix_refl _, makes₂⟩, makes₂.on, fun _ => last,
            fun bad => absurd (kept rfl) bad, fun _ => kept rfl⟩
        case inr =>
          obtain ⟨r, settled, found, _, there⟩ := settle_way on₁ spells follows (r := .error e)
          refine ⟨r, h₁, by simp only [failed, settled], makes, on₁,
            fun ok => (found ok).resolve_left nofun, fun _ => unmade, fun clear => ?_⟩
          obtain ⟨reach, last⟩ := directory_of_blocked clear folder unmade blocked
          exact there reach last

end Approach
end AirRelease
