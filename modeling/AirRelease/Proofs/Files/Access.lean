import AirRelease.Proofs.Files.Path
import AirRelease.Proofs.Files.Walk
import AirRelease.Proofs.Success

namespace AirRelease

namespace Path

-- Whether the system takes the path at all.
def check (p : Path) : Except Fault Unit :=
  if p.text.toList.contains '\x00' then .error .badPath
  else if p.text = "" then .error .notFound
  else if FileTree.maxPathLength < p.text.utf8ByteSize then .error .nameTooLong
  else .ok ()

theorem check_eq_ok {p : Path} : p.check = .ok () ↔
    '\x00' ∉ p.text.toList ∧ p.text ≠ "" ∧ p.text.utf8ByteSize ≤ FileTree.maxPathLength := by
  simp [check]

theorem check_ne_notFound {p : Path} (filled : p.text ≠ "") : p.check ≠ .error .notFound := by
  rw [check, if_neg filled]
  split
  · exact nofun
  · split <;> exact nofun

theorem check_of_sublist {p q : Path} (filled : p.text ≠ "") (sub : p.text.toList.Sublist q.text.toList)
    (check : q.check = .ok ()) : p.check = .ok () := by
  obtain ⟨clean, _, short⟩ := check_eq_ok.mp check
  refine check_eq_ok.mpr ⟨fun mem => clean (sub.subset mem), filled, ?_⟩
  rw [← String.utf8Len_toList] at short ⊢
  exact (String.utf8Len_le_of_sublist sub).trans short

-- Nothing speaks against the path of some of the names if nothing does against the whole path.
theorem check_ofNames {p q : Path} {ns : List String} (sub : ns.Sublist p.names) (ne : ns ≠ [])
    (pre : p.text.toList <+: q.text.toList) (check : q.check = .ok ()) :
    (ofNames p.IsAbsolute ns).check = .ok () := by
  have named : ∀ x ∈ ns, IsName x := fun x mem => isName_of_mem_names (sub.subset mem)
  exact check_of_sublist (text_ofNames_ne named ne) ((ofNames_sublist sub).trans pre.sublist) check

-- The system takes the path that goes on by the names, and each of them.
def Takes (p : Path) (ns : List String) : Prop :=
  (p.below ns).check = .ok () ∧ ∀ x ∈ ns, FileTree.Fits x

instance (p : Path) (ns : List String) : Decidable (p.Takes ns) :=
  inferInstanceAs (Decidable (_ ∧ _))

-- There is an end to the names.
theorem Takes.length_lt {p : Path} {ns : List String} (takes : p.Takes ns) (named : ∀ x ∈ ns, IsName x)
    (filled : p.text ≠ "") : ns.length < FileTree.maxPathLength := by
  obtain ⟨_, _, short⟩ := check_eq_ok.mp takes.1
  have longer := length_le_below (p := p) named
  have some : 0 < p.text.utf8ByteSize := Nat.pos_of_ne_zero (mt String.utf8ByteSize_eq_zero_iff.mp filled)
  omega

theorem not_takes_of_long {p : Path} {x : String} (part : IsPart x)
    (long : FileTree.maxPathLength < p.text.utf8ByteSize + x.utf8ByteSize) : ¬p.Takes [x] := fun takes =>
  have ⟨_, _, short⟩ := check_eq_ok.mp takes.1
  Nat.not_lt.mpr ((size_join part).trans short) long

-- Where the path starts.
def start (base : Place) (p : Path) : Place :=
  if p.IsAbsolute then [] else base

end Path

open AirRelease.Path (IsName)

namespace FileTree

variable {t t' : FileTree} {base place source target : Place} {follow : Bool} {p old new : Path}
  {bytes : ByteArray}

theorem locate_eq : t.locate base follow p =
    p.check >>= fun _ => t.walk follow maxLinks (p.start base) p.steps := by
  simp only [locate, Path.check, Path.start]
  split
  · rfl
  · split
    · rfl
    · split <;> rfl

theorem kind_eq_file : t.kind place = some (.file bytes) ↔ t.at? place = some (.file bytes) := by
  rw [kind]
  cases t.at? place with
  | none => simp
  | some n => cases n <;> simp [Node.kind]

theorem kind_eq_directory :
    t.kind place = some .directory ↔ ∃ es, t.at? place = some (.directory es) := by
  rw [kind]
  cases t.at? place with
  | none => simp
  | some n => cases n <;> simp [Node.kind]

-- What is read at a place.
def bytesAt (t : FileTree) (place : Place) : Except Fault ByteArray :=
  match t.kind place with
  | none => .error .notFound
  | some (.file bytes) => .ok bytes
  | some .directory => .error .isDirectory
  | some (.link _) => .error .tooManyLinks

theorem read_eq : t.read base p = t.locate base true p >>= t.bytesAt := by
  simp only [read, node, bind_assoc]
  congr
  funext place
  simp only [bytesAt, kind]
  cases t.at? place with
  | none => rfl
  | some n => cases n <;> rfl

theorem node_eq_ok {n : Node} :
    t.node base p = .ok n ↔ ∃ place, t.locate base true p = .ok place ∧ t.at? place = some n := by
  simp only [node, bind_eq_ok]
  refine exists_congr fun place => and_congr_right fun _ => ?_
  cases t.at? place <;> simp

theorem list_eq_ok {entries : List (String × FileType)} : t.list base p = .ok entries ↔
    ∃ es, t.node base p = .ok (.directory es) ∧ entries = es.map fun e => (e.1, e.2.fileType) := by
  simp only [list, bind_eq_ok]
  constructor
  · rintro ⟨n, there, listed⟩
    cases n with
    | directory es => exact ⟨es, there, (Except.ok.inj listed).symm⟩
    | file | link => cases listed
  · rintro ⟨es, there, rfl⟩
    exact ⟨_, there, rfl⟩

theorem read_eq_ok : t.read base p = .ok bytes ↔ t.node base p = .ok (.file bytes) := by
  simp only [read, bind_eq_ok]
  constructor
  · rintro ⟨n, there, contents⟩
    cases n with
    | file => cases contents; exact there
    | directory | link => cases contents
  · exact fun there => ⟨_, there, rfl⟩

theorem write_eq_ok : t.write base p bytes = .ok t' ↔
    ∃ place, t.locate base true p = .ok place ∧ t.kind place ≠ some .directory ∧
      t.put place (.file bytes) = t' := by
  simp only [write, bind_eq_ok]
  refine exists_congr fun place => and_congr_right fun _ => ?_
  rw [kind]
  cases t.at? place with
  | none => simp
  | some n => cases n <;> simp [Node.kind]

theorem makeDirectory_eq_ok : t.makeDirectory base p = .ok t' ↔
    ∃ place, t.locate base false p = .ok place ∧ t.kind place = none ∧
      t.put place (.directory []) = t' := by
  simp only [makeDirectory, bind_eq_ok]
  refine exists_congr fun place => and_congr_right fun _ => ?_
  rw [kind]
  cases t.at? place <;> simp

theorem makeDirectory_of_ne_none (located : t.locate base false p = .ok place)
    (there : t.kind place ≠ none) : t.makeDirectory base p = .error .alreadyExists := by
  obtain ⟨n, found⟩ := Option.ne_none_iff_exists'.mp (mt kind_eq_none.mpr there)
  simp only [makeDirectory, located, bind, Except.bind, found]
  rfl

theorem makeDirectory_of_error {e : Fault} (lost : t.locate base false p = .error e) :
    t.makeDirectory base p = .error e := by
  simp only [makeDirectory, lost, error_bind]

theorem rename_eq_ok : t.rename base old new = .ok t' ↔
    ∃ source target n, t.locate base false old = .ok source ∧ t.locate base false new = .ok target ∧
      t.at? source = some n ∧ t.kind target ≠ some .directory ∧ (t.erase source).put target n = t' := by
  have free (target : Place) : (t.at? target).any Node.isDirectory = false ↔
      t.kind target ≠ some .directory := by
    rw [kind]
    cases t.at? target with
    | none => simp
    | some n => cases n <;> simp [Node.kind, Node.isDirectory]
  simp only [rename, bind_eq_ok]
  constructor
  case mp =>
    rintro ⟨source, located, target, relocated, ok⟩
    cases there : t.at? source with
    | none => simp [there] at ok
    | some n =>
      simp only [there, throw_eq_error, error_bind, ite_error_eq_ok, pure_eq_ok,
        Bool.not_eq_true] at ok
      exact ⟨source, target, n, located, relocated, there, (free target).mp ok.1, ok.2⟩
  case mpr =>
    rintro ⟨source, target, n, located, relocated, there, other, rfl⟩
    exact ⟨source, located, target, relocated, by simp [there, (free target).mpr other]⟩

theorem link_eq_ok : t.link base old new = .ok t' ↔
    ∃ source target n, t.locate base false old = .ok source ∧ t.locate base false new = .ok target ∧
      t.at? source = some n ∧ t.kind target = none ∧ t.put target n = t' := by
  simp only [link, bind_eq_ok, kind_eq_none]
  constructor
  case mp =>
    rintro ⟨source, located, target, relocated, ok⟩
    cases there : t.at? source with
    | none => simp [there] at ok
    | some n =>
      cases free : t.at? target with
      | some => simp [there, free] at ok
      | none => exact ⟨source, target, n, located, relocated, there, free, by simpa [there, free] using ok⟩
  case mpr =>
    rintro ⟨source, target, n, located, relocated, there, free, rfl⟩
    exact ⟨source, located, target, relocated, by simp [there, free]⟩

theorem link_of_ne_none (located : t.locate base false old = .ok source) (there : t.kind source ≠ none)
    (relocated : t.locate base false new = .ok target) (taken : t.kind target ≠ none) :
    t.link base old new = .error .alreadyExists := by
  obtain ⟨n, found⟩ := Option.ne_none_iff_exists'.mp (mt kind_eq_none.mpr there)
  obtain ⟨m, other⟩ := Option.ne_none_iff_exists'.mp (mt kind_eq_none.mpr taken)
  simp only [link, located, relocated, bind, Except.bind, found, other]
  rfl

theorem remove_eq_ok : t.remove base p = .ok t' ↔
    ∃ place, t.locate base false p = .ok place ∧ t.kind place ≠ none ∧ t.kind place ≠ some .directory ∧
      t.erase place = t' := by
  simp only [remove, bind_eq_ok]
  refine exists_congr fun place => and_congr_right fun _ => ?_
  rw [kind]
  cases t.at? place with
  | none => simp
  | some n => cases n <;> simp [Node.kind]

section Below

variable {root : Path} {here : Place} {q : List String} (reached : t.locate base true root = .ok here)
  (directory : t.kind here = some .directory) (named : ∀ x ∈ q, IsName x) (proper : ∀ x ∈ q, Proper x)
include reached directory named

-- Further names lead on from the directory that the path leads to.
theorem locate_below (ne : q ≠ []) (straight : t.Straight here q) :
    t.locate base follow (root.below q) = (root.below q).check >>= fun _ => t.seek here q := by
  obtain ⟨_, _, walked⟩ := bind_eq_ok.mp (locate_eq ▸ reached)
  obtain ⟨m, on⟩ := walk_append walked directory
  have start : (root.below q).start base = root.start base := by
    simp only [Path.start, Path.isAbsolute_below named]
  rw [locate_eq, Path.steps_below named ne, start, ← walk_filter ne, ← Path.names_eq,
    ← Path.filter_steps, walk_filter ne, on t (.refl t) follow q (.inl ne), walk_eq_seek straight]

include proper

theorem node_below_eq_ok {n n' : Node} (there : t.at? (here ++ q) = some n) (unlinked : n.fileType ≠ .link) :
    t.node base (root.below q) = .ok n' ↔ root.Takes q ∧ n' = n := by
  rcases List.eq_nil_or_concat q with rfl | ⟨front, x, rfl⟩
  case inl =>
    obtain ⟨_, check, _⟩ := bind_eq_ok.mp (locate_eq ▸ reached)
    have takes : root.Takes [] := ⟨check, nofun⟩
    have found : t.node base root = .ok n := node_eq_ok.mpr ⟨here, reached, by simpa using there⟩
    simp [Path.below, found, takes, eq_comm]
  case inr =>
    rw [List.concat_eq_append] at *
    have straight := straight_of_at? proper there unlinked
    have folder : t.kind (here ++ front) = some .directory := by
      rw [← List.append_assoc] at there
      exact directory_above there
    rw [node_eq_ok]
    simp only [locate_below reached directory named (by simp) straight, bind_eq_ok,
      seek_concat_eq_ok directory]
    constructor
    · rintro ⟨place, ⟨_, check, rfl, _, fits⟩, found⟩
      rw [List.append_assoc, there] at found
      exact ⟨⟨check, fits⟩, (Option.some.inj found).symm⟩
    · rintro ⟨⟨check, fits⟩, rfl⟩
      exact ⟨_, ⟨(), check, rfl, folder, fits⟩, by rwa [List.append_assoc]⟩

end Below

-- The path leads to nothing that is there.
def Misses (t : FileTree) (base : Place) (follow : Bool) (p : Path) : Prop :=
  t.locate base follow p = .error .notFound ∨ ∃ place, t.locate base follow p = .ok place ∧ t.kind place = none

theorem read_of_misses (misses : t.Misses base true p) : t.read base p = .error .notFound := by
  rw [read_eq]
  rcases misses with lost | ⟨place, located, none⟩
  · rw [lost, error_bind]
  · rw [located]
    simp only [bind, Except.bind, bytesAt, none]

theorem remove_of_misses (misses : t.Misses base false p) : t.remove base p = .error .notFound := by
  rw [remove]
  rcases misses with lost | ⟨place, located, none⟩
  · rw [lost, error_bind]
  · rw [located]
    simp only [bind, Except.bind, kind_eq_none.mp none]
    rfl

theorem misses_of_remove (lost : t.remove base p = .error .notFound) : t.Misses base false p := by
  rw [remove] at lost
  cases located : t.locate base false p with
  | error e =>
    rw [located, error_bind] at lost
    cases lost
    exact .inl located
  | ok place =>
    rw [located, ok_bind] at lost
    refine .inr ⟨place, located, kind_eq_none.mpr ?_⟩
    cases found : t.at? place with
    | none => rfl
    | some n =>
      simp only [found] at lost
      cases n <;> exact nomatch lost

end FileTree
end AirRelease
