import AirRelease.Proofs.Files.Lineage

namespace AirRelease

open FileTree (Proper Fits)
open AirRelease.Path (IsName)

namespace Node

-- Neither the node nor anything below it is a link.
inductive Linkless : Node → Prop
  | file : Linkless (file bytes)
  | directory (below : ∀ e ∈ entries, Linkless e.2) : Linkless (directory entries)

theorem Linkless.at? {n m : Node} {place : Place} (linkless : n.Linkless) (there : n.at? place = some m) :
    m.Linkless := by
  induction place generalizing n with
  | nil => exact Option.some.inj there ▸ linkless
  | cons name rest ih =>
    cases linkless with
    | file => exact nomatch there
    | directory below =>
      have ⟨e, found, there⟩ := Option.bind_eq_some_iff.mp there
      exact ih (below _ (mem_of_under? found)) there

end Node

namespace FileTree

-- Where a name leads from a directory.
def turn (here : Place) (name : String) : Place :=
  if name = "." then here else if name = ".." then here.dropLast else here ++ [name]

-- A step that may be the last one: nothing need stand where it leads.
def step (here : Place) (name : String) : Except Fault Place :=
  if Fits name then .ok (turn here name) else .error .nameTooLong

-- A step that others follow.
def into (t : FileTree) (here : Place) (name : String) : Except Fault Place :=
  step here name >>= fun place =>
    match t.kind place with
    | some .directory => .ok place
    | none => .error .notFound
    | some _ => .error .notDirectory

def Linkless (t : FileTree) : Prop :=
  ∀ place target, t.kind place ≠ some (.link target)

theorem Linkless.of_node {t : FileTree} (linkless : (Node.directory t.entries).Linkless) : t.Linkless := by
  intro place target link
  have ⟨n, there, kind⟩ := Option.map_eq_some_iff.mp link
  cases linkless.at? there with
  | file | directory => exact nomatch kind

variable {t t' : FileTree} {follow : Bool} {n : Nat} {base here place : Place} {x : String}
  {names : List String}

theorem turn_of_proper (proper : Proper x) : turn here x = here ++ [x] := by
  rw [turn, if_neg proper.not_dot, if_neg proper.not_up]

theorem step_eq_ok : step here x = .ok place ↔ Fits x ∧ turn here x = place := by
  rw [step]
  split <;> simp_all

theorem into_eq_ok : t.into here x = .ok place ↔
    Fits x ∧ turn here x = place ∧ t.kind place = some .directory := by
  have last (p : Place) : (match t.kind p with
      | some .directory => .ok p
      | none => .error .notFound
      | some _ => .error .notDirectory : Except Fault Place) = .ok place ↔
      p = place ∧ t.kind p = some .directory := by
    split <;> simp_all
  simp only [into, bind_eq_ok, step_eq_ok, last]
  constructor
  · rintro ⟨_, ⟨fits, rfl⟩, rfl, there⟩
    exact ⟨fits, rfl, there⟩
  · rintro ⟨fits, rfl, there⟩
    exact ⟨_, ⟨fits, rfl⟩, rfl, there⟩

theorem into_eq_notFound (fits : Fits x) (missing : t.kind (turn here x) = none) :
    t.into here x = .error .notFound := by
  rw [into, step, if_pos fits, ok_bind, missing]

theorem directory_dropLast (directory : t.kind here = some .directory) :
    t.kind here.dropLast = some .directory := by
  obtain ⟨rest, eq⟩ := List.dropLast_prefix here
  exact directory_of_append (eq ▸ directory)

theorem enter_cons : (x :: names).foldlM t.into here = .ok place ↔
    Fits x ∧ t.kind (turn here x) = some .directory ∧ names.foldlM t.into (turn here x) = .ok place := by
  simp only [List.foldlM_cons, bind_eq_ok, into_eq_ok]
  constructor
  · rintro ⟨_, ⟨fits, rfl, there⟩, rest⟩
    exact ⟨fits, there, rest⟩
  · rintro ⟨fits, there, rest⟩
    exact ⟨_, ⟨fits, rfl, there⟩, rest⟩

theorem enter_concat : (names ++ [x]).foldlM t.into here = .ok place ↔
    ∃ next, names.foldlM t.into here = .ok next ∧ t.into next x = .ok place := by
  rw [List.foldlM_append, bind_eq_ok]
  simp only [List.foldlM_cons, List.foldlM_nil, bind_pure]

theorem enter_grown (grown : ∀ place, t.kind place = some .directory → t'.kind place = some .directory)
    (entered : names.foldlM t.into here = .ok place) : names.foldlM t'.into here = .ok place := by
  induction names generalizing here with
  | nil => exact entered
  | cons x names ih =>
    have ⟨fits, there, rest⟩ := enter_cons.mp entered
    exact enter_cons.mpr ⟨fits, grown _ there, ih rest⟩

theorem place_of_enter (entered : names.foldlM t.into here = .ok place) : names.foldl turn here = place := by
  induction names generalizing here with
  | nil => exact Except.ok.inj entered
  | cons x names ih => exact ih (enter_cons.mp entered).2.2

theorem directory_of_enter (directory : t.kind here = some .directory)
    (entered : names.foldlM t.into here = .ok place) : t.kind place = some .directory := by
  induction names generalizing here with
  | nil => exact Except.ok.inj entered ▸ directory
  | cons x names ih =>
    have ⟨_, there, rest⟩ := enter_cons.mp entered
    exact ih there rest

section Walk

variable (linkless : t.Linkless) (directory : t.kind here = some .directory)
include linkless directory

theorem walk_into (more : names ≠ []) :
    t.walk follow n here (x :: names) = t.into here x >>= fun next => t.walk follow n next names := by
  by_cases dot : x = "."
  case pos =>
    subst dot
    have stays : t.into here "." = .ok here := into_eq_ok.mpr ⟨by decide, rfl, directory⟩
    rw [walk_dot, stays, ok_bind]
  by_cases up : x = ".."
  case pos =>
    subst up
    have back : t.into here ".." = .ok here.dropLast :=
      into_eq_ok.mpr ⟨by decide, rfl, directory_dropLast directory⟩
    rw [walk_up, back, ok_bind]
  have proper : Proper x := ⟨dot, up⟩
  by_cases fits : Fits x
  case neg => rw [walk_long proper (Nat.lt_of_not_le fits), into, step, if_neg fits, error_bind, error_bind]
  rw [walk_cons proper fits, into, step, if_pos fits, ok_bind, turn_of_proper proper]
  cases kind : t.kind (here ++ [x]) with
  | none => rw [error_bind]; exact if_neg more
  | some k =>
    cases k with
    | directory => rw [ok_bind]
    | file => rw [error_bind]; exact if_neg more
    | link target => exact absurd kind (linkless _ target)

omit directory in
theorem walk_step : t.walk follow n here [x] = step here x := by
  by_cases dot : x = "."
  case pos =>
    subst dot
    rw [walk_dot, walk_nil, step, if_pos (by decide)]
    rfl
  by_cases up : x = ".."
  case pos =>
    subst up
    rw [walk_up, walk_nil, step, if_pos (by decide)]
    rfl
  have proper : Proper x := ⟨dot, up⟩
  by_cases fits : Fits x
  case neg => rw [walk_long proper (Nat.lt_of_not_le fits), step, if_neg fits]
  rw [walk_cons proper fits, step, if_pos fits, turn_of_proper proper]
  cases kind : t.kind (here ++ [x]) with
  | none => rfl
  | some k =>
    cases k with
    | directory => exact walk_nil
    | file => rfl
    | link target => exact absurd kind (linkless _ target)

-- All the names but the last one lead into directories.
theorem walk_concat :
    t.walk follow n here (names ++ [x]) = names.foldlM t.into here >>= fun next => step next x := by
  induction names generalizing here with
  | nil => exact walk_step linkless
  | cons y names ih =>
    rw [List.cons_append, walk_into linkless directory (by simp), List.foldlM_cons, bind_assoc]
    cases first : t.into here y with
    | error => rfl
    | ok next => exact ih (into_eq_ok.mp first).2.2

theorem walk_of_enter (entered : names.foldlM t.into here = .ok place) :
    t.walk follow n here names = .ok place := by
  rcases List.eq_nil_or_concat names with rfl | ⟨front, x, rfl⟩
  case inl => rw [walk_nil, ← Except.ok.inj entered]
  case inr =>
    rw [List.concat_eq_append] at entered ⊢
    have ⟨next, first, last⟩ := enter_concat.mp entered
    have ⟨fits, at_, _⟩ := into_eq_ok.mp last
    rw [walk_concat linkless directory, first, ok_bind, step_eq_ok]
    exact ⟨fits, at_⟩

theorem locate_ofNames {absolute : Bool} (start : here = if absolute then [] else base)
    (named : ∀ y ∈ names ++ [x], IsName y) :
    t.locate base follow (.ofNames absolute (names ++ [x])) =
      (Path.ofNames absolute (names ++ [x])).check >>= fun _ =>
        names.foldlM t.into here >>= fun next => step next x := by
  have same : (Path.ofNames absolute (names ++ [x])).start base = here := by
    simp only [Path.start, Path.isAbsolute_ofNames named (by simp), start]
  rw [locate_eq, same, Path.steps_ofNames named (by simp), walk_concat linkless directory]

end Walk

end FileTree

-- Where the path leads if there is no link on the way.
def Path.place (base : Place) (p : Path) : Place :=
  p.names.foldl FileTree.turn (p.start base)

-- The computer works in one of its directories and has no links.
structure Host.Linkless (h : Host) : Prop where
  distinct : h.files.Distinct
  linkless : h.files.Linkless
  base : h.files.kind h.base = some .directory

namespace Path

variable {p folder : Path} {base : Place} {h h' : Host} {names : List String} {x : String}

theorem start_eq {absolute : Bool} (named : ∀ y ∈ names, IsName y) (ne : names ≠ []) :
    (ofNames absolute names).start base = if absolute then [] else base := by
  simp only [start, isAbsolute_ofNames named ne]

theorem place_ofNames (named : ∀ y ∈ names, IsName y) (ne : names ≠ []) :
    (ofNames p.IsAbsolute names).place base = names.foldl FileTree.turn (p.start base) := by
  rw [place, names_ofNames named ne, start_eq named ne]
  simp only [start, decide_eq_true_iff]

theorem place_join (name : IsName x) (proper : Proper x) :
    (folder.join ⟨x⟩).place base = folder.place base ++ [x] := by
  rw [place, names_join name, List.foldl_append, List.foldl_cons, List.foldl_nil,
    FileTree.turn_of_proper proper]
  simp only [place, start, isAbsolute_join name.whole]

theorem directory_start (sound : h.Linkless) (p : Path) :
    h.files.kind (p.start h.base) = some .directory := by
  rw [start]
  split
  · rfl
  · exact sound.base

end Path

-- The approach to a folder that is there.
def Approach.toFolder (base : Place) (folder : Path) : Approach where
  base := base
  root := folder
  above := folder.names
  here := folder.place base
  below := []
  split := by simp

theorem Approach.on_toFolder {h : Host} {base : Place} {folder : Path} (sound : h.Linkless)
    (same : h.base = base) (entered : ∃ place, folder.names.foldlM h.files.into (folder.start base) = .ok place) :
    (toFolder base folder).On h where
  base := same
  holds := by
    subst same
    have ⟨place, entered⟩ := entered
    have start := Path.directory_start sound folder
    have directory := FileTree.directory_of_enter start entered
    cases FileTree.place_of_enter entered
    exact {
      distinct := sound.distinct
      reached := FileTree.walk_of_enter sound.linkless start entered
      directory
      straight := nofun
      plain := fun _ _ target => sound.linkless _ target
    }

end AirRelease
