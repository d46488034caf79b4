import Mathlib.Logic.Function.Basic
import AirRelease.Files.Tree

namespace AirRelease

inductive Kind
  | file (bytes : ByteArray)
  | link (target : Path)
  | directory

namespace Node

def kind : Node → Kind
  | file bytes => .file bytes
  | link target => .link target
  | directory _ => .directory

-- No directory holds two entries of one name.
inductive Distinct : Node → Prop
  | file : Distinct (file bytes)
  | link : Distinct (link target)
  | directory (names : (entries.map (·.1)).Nodup) (below : ∀ e ∈ entries, Distinct e.2) :
    Distinct (directory entries)

-- Nothing stands below the node.
def Bare (n : Node) : Prop :=
  ∀ place, place ≠ [] → n.at? place = none

theorem bare_of_kind_ne {n : Node} (ne : n.kind ≠ .directory) : n.Bare := by
  intro place below
  cases place with
  | nil => exact absurd rfl below
  | cons => cases n <;> first | rfl | exact absurd rfl ne

theorem bare_empty : (directory []).Bare := by
  intro place below
  cases place with
  | nil => exact absurd rfl below
  | cons => rfl

theorem distinct_empty : (directory []).Distinct :=
  .directory List.nodup_nil nofun

theorem at?_append (n : Node) (p q : Place) : n.at? (p ++ q) = (n.at? p).bind (·.at? q) := by
  induction p generalizing n with
  | nil => rfl
  | cons name rest ih =>
    cases n with
    | directory entries =>
      simp only [List.cons_append, Node.at?]
      cases under? name entries <;> simp [ih]
    | file | link => rfl

theorem directory_of_at?_cons {n m : Node} {name : String} {rest : Place}
    (h : n.at? (name :: rest) = some m) : ∃ entries, n = directory entries := by
  cases n with
  | directory entries => exact ⟨entries, rfl⟩
  | file | link => exact absurd h nofun

section Entries

variable {name : String} {f : Option Node → Option Node} {entries : List (String × Node)}

theorem under?_eq_none : under? name entries = none ↔ name ∉ entries.map (·.1) := by
  simp only [under?, Option.map_eq_none_iff, List.find?_eq_none, List.mem_map, decide_eq_true_eq]
  constructor
  · rintro absent ⟨e, mem, eq⟩
    exact absent e mem eq
  · exact fun fresh e mem eq => fresh ⟨e, mem, eq⟩

theorem mem_of_under? {n : Node} (h : under? name entries = some n) : (name, n) ∈ entries := by
  obtain ⟨e, found, rfl⟩ := Option.map_eq_some_iff.mp h
  have named : e.1 = name := by simpa using List.find?_some found
  exact named ▸ List.mem_of_find?_eq_some found

theorem under?_of_mem {e : String × Node} (distinct : (entries.map (·.1)).Nodup) (mem : e ∈ entries) :
    under? e.1 entries = some e.2 := by
  induction entries with
  | nil => cases mem
  | cons d rest ih =>
    obtain ⟨fresh, distinct⟩ := List.nodup_cons.mp distinct
    rw [under?_cons]
    rcases List.mem_cons.mp mem with rfl | mem
    case inl => exact if_pos rfl
    case inr =>
      have ne : d.1 ≠ e.1 := fun same => fresh (List.mem_map.mpr ⟨e, mem, same.symm⟩)
      rw [if_neg ne, ih distinct mem]

-- No other entry of the name comes to light when an entry goes away.
theorem under?_alterEntry (distinct : (entries.map (·.1)).Nodup) :
    under? name (alterEntry name f entries) = f (under? name entries) := by
  cases h : f (under? name entries) with
  | some n => exact under?_alterEntry_self name h
  | none =>
    induction entries with
    | nil =>
      have h : f none = none := h
      simp [alterEntry, h, under?]
    | cons e rest ih =>
      obtain ⟨k, m⟩ := e
      obtain ⟨fresh, distinct⟩ := List.nodup_cons.mp distinct
      rw [under?_cons] at h
      by_cases eq : k = name
      case pos =>
        subst eq
        rw [if_pos rfl] at h
        simpa [alterEntry, h] using under?_eq_none.mpr fresh
      case neg =>
        rw [if_neg eq] at h
        simp only [alterEntry, if_neg eq, under?_cons]
        exact ih distinct h

theorem mem_alterEntry {e : String × Node} (mem : e ∈ alterEntry name f entries) :
    e ∈ entries ∨ e.1 = name ∧ ∃ o, f o = some e.2 ∧ ∀ n, o = some n → (name, n) ∈ entries := by
  induction entries with
  | nil =>
    simp only [alterEntry, List.mem_map, Option.mem_toList] at mem
    obtain ⟨n, eq, rfl⟩ := mem
    exact .inr ⟨rfl, none, eq, fun _ same => absurd same.symm (Option.some_ne_none _)⟩
  | cons d rest ih =>
    obtain ⟨k, m⟩ := d
    simp only [alterEntry] at mem
    split at mem
    case isTrue eq =>
      rcases List.mem_append.mp mem with mem | mem
      · simp only [List.mem_map, Option.mem_toList] at mem
        obtain ⟨n, new, rfl⟩ := mem
        exact .inr ⟨rfl, some m, new, fun n same => by cases same; exact eq ▸ List.mem_cons_self⟩
      · exact .inl (List.mem_cons_of_mem _ mem)
    case isFalse =>
      rcases List.mem_cons.mp mem with rfl | mem
      · exact .inl List.mem_cons_self
      · rcases ih mem with old | ⟨named, o, new, old⟩
        · exact .inl (List.mem_cons_of_mem _ old)
        · exact .inr ⟨named, o, new, fun n eq => List.mem_cons_of_mem _ (old n eq)⟩

theorem nodup_alterEntry (distinct : (entries.map (·.1)).Nodup) :
    ((alterEntry name f entries).map (·.1)).Nodup := by
  induction entries with
  | nil => cases h : f none <;> simp [alterEntry, h]
  | cons d rest ih =>
    obtain ⟨k, m⟩ := d
    obtain ⟨fresh, distinct⟩ := List.nodup_cons.mp distinct
    simp only [alterEntry]
    split
    case isTrue eq =>
      cases h : f (some m) with
      | none => simpa using distinct
      | some n => simpa using ⟨by simpa [eq] using fresh, distinct⟩
    case isFalse ne =>
      refine List.nodup_cons.mpr ⟨fun mem => ?_, ih distinct⟩
      obtain ⟨e, mem, named⟩ := List.mem_map.mp mem
      rcases mem_alterEntry mem with old | ⟨eq, _⟩
      · exact fresh (List.mem_map.mpr ⟨e, old, named⟩)
      · exact ne (named.symm.trans eq)

theorem distinct_alterEntry (distinct : (directory entries).Distinct)
    (keeps : ∀ o m, (∀ n, o = some n → n.Distinct) → f o = some m → m.Distinct) :
    (directory (alterEntry name f entries)).Distinct := by
  cases distinct with | directory names below
  refine .directory (nodup_alterEntry names) fun e mem => ?_
  rcases mem_alterEntry mem with old | ⟨_, o, new, old⟩
  · exact below e old
  · exact keeps o e.2 (fun n eq => below _ (old n eq)) new

end Entries

theorem distinct_alter {f : Option Node → Option Node}
    (keeps : ∀ o m, (∀ n, o = some n → n.Distinct) → f o = some m → m.Distinct) (place : Place) :
    ∀ o m, (∀ n, o = some n → n.Distinct) → alter f place o = some m → m.Distinct := by
  induction place with
  | nil => exact keeps
  | cons name rest ih =>
    intro o m distinct new
    match o with
    | some (directory entries) =>
      cases new
      exact distinct_alterEntry (distinct _ rfl) ih
    | some (file _) | some (link _) | none => exact distinct m new

-- A change of the entry `x` of a directory is seen at this entry and below it.
theorem at?_alter {f : Option Node → Option Node} {x : String} {folder : Place} {n : Node}
    {es : List (String × Node)} (distinct : n.Distinct) (there : n.at? folder = some (directory es)) :
    ∃ m, alter f (folder ++ [x]) (some n) = some m ∧
      (∀ rest, m.at? (folder ++ x :: rest) = (f (n.at? (folder ++ [x]))).bind (·.at? rest)) ∧
      ∀ q, ¬folder ++ [x] <+: q → (m.at? q).map kind = (n.at? q).map kind := by
  induction folder generalizing n with
  | nil =>
    cases there
    cases distinct with | directory names
    refine ⟨.directory (alterEntry x f es), rfl, fun rest => ?_, fun q off => ?_⟩
    · simp only [List.nil_append, Node.at?, under?_alterEntry names]
      cases under? x es <;> rfl
    · cases q with
      | nil => rfl
      | cons y q =>
        have ne : y ≠ x := by rintro rfl; exact off (by simp)
        simp only [Node.at?, under?_alterEntry_of_ne ne]
  | cons name folder ih =>
    obtain ⟨entries, rfl⟩ := directory_of_at?_cons there
    cases distinct with | directory names below
    obtain ⟨c, found, there⟩ := Option.bind_eq_some_iff.mp there
    obtain ⟨m, eq, self, other⟩ := ih (below _ (mem_of_under? found)) there
    have now : under? name (alterEntry name (alter f (folder ++ [x])) entries) = some m :=
      under?_alterEntry_self name (found ▸ eq)
    refine ⟨.directory (alterEntry name (alter f (folder ++ [x])) entries), rfl, fun rest => ?_,
      fun q off => ?_⟩
    · simpa only [List.cons_append, Node.at?, now, found, Option.bind_some] using self rest
    · cases q with
      | nil => rfl
      | cons y q =>
        by_cases same : y = name
        case pos =>
          subst same
          have off : ¬folder ++ [x] <+: q := fun pre => off (by simpa using pre)
          simpa only [Node.at?, now, found, Option.bind_some] using other q off
        case neg => simp only [Node.at?, under?_alterEntry_of_ne same]

end Node

namespace FileTree

variable {t : FileTree} {folder : Place} {x : String} {n : Node}

-- What stands at a place.
def kind (t : FileTree) (place : Place) : Option Kind :=
  (t.at? place).map Node.kind

def Distinct (t : FileTree) : Prop :=
  (Node.directory t.entries).Distinct

theorem kind_eq_none {place : Place} : t.kind place = none ↔ t.at? place = none := by
  simp [kind]

theorem kind_below (h : t.kind (folder ++ x :: rest) ≠ none) : t.kind folder = some .directory := by
  have there : t.at? (folder ++ x :: rest) ≠ none := fun none => h (kind_eq_none.mpr none)
  obtain ⟨m, there⟩ := Option.ne_none_iff_exists'.mp there
  rw [at?, Node.at?_append] at there
  obtain ⟨n, found, there⟩ := Option.bind_eq_some_iff.mp there
  obtain ⟨entries, rfl⟩ := Node.directory_of_at?_cons there
  exact Option.map_eq_some_iff.mpr ⟨_, found, rfl⟩

theorem directory_above {rest : Place} (there : t.at? (folder ++ x :: rest) = some n) :
    t.kind folder = some .directory :=
  kind_below (fun none => nomatch there.symm.trans (kind_eq_none.mp none))

theorem kind_folder (h : t.kind (folder ++ [x]) ≠ none) : t.kind folder = some .directory :=
  kind_below h

theorem directory_of_append {place rest : Place} (h : t.kind (place ++ rest) = some .directory) :
    t.kind place = some .directory := by
  cases rest with
  | nil => simpa using h
  | cons name rest => exact kind_below (by rw [h]; exact nofun)

theorem kind_alter {f : Option Node → Option Node} (distinct : t.Distinct)
    (there : t.kind folder = some .directory) (leaf : t.kind (folder ++ [x]) ≠ some .directory)
    (bare : ∀ m, f (t.at? (folder ++ [x])) = some m → m.Bare) :
    (t.alter (folder ++ [x]) f).kind =
      Function.update t.kind (folder ++ [x]) ((f (t.at? (folder ++ [x]))).map Node.kind) := by
  obtain ⟨n, there, dir⟩ := Option.map_eq_some_iff.mp there
  obtain ⟨es, rfl⟩ : ∃ es, n = .directory es := by cases n <;> simp_all [Node.kind]
  obtain ⟨m, eq, self, other⟩ := Node.at?_alter (f := f) (x := x) distinct there
  have root : Node.directory (t.alter (folder ++ [x]) f).entries = m := by
    cases folder <;> exact Option.some.inj eq
  change ∀ rest, m.at? _ = (f (t.at? (folder ++ [x]))).bind _ at self
  generalize f (t.at? (folder ++ [x])) = new at bare self
  funext q
  rw [kind, at?, root, Function.update_apply]
  split
  case isTrue eq =>
    rw [eq, self []]
    cases new <;> rfl
  case isFalse ne =>
    by_cases below : folder ++ [x] <+: q
    case neg => exact other q below
    case pos =>
      obtain ⟨rest, rfl⟩ := below
      have deeper : rest ≠ [] := by rintro rfl; simp at ne
      have before : t.kind (folder ++ [x] ++ rest) = none := by
        by_contra some
        obtain ⟨y, rest, rfl⟩ := List.exists_cons_of_ne_nil deeper
        exact leaf (kind_below some)
      rw [before, List.append_assoc, List.singleton_append, self rest]
      cases new with
      | none => rfl
      | some m => exact congrArg _ (bare m rfl rest deeper)

theorem distinct_put (distinct : t.Distinct) (new : n.Distinct) (place : Place) :
    (t.put place n).Distinct := by
  cases place with
  | nil => exact distinct
  | cons name rest =>
    refine Node.distinct_alterEntry distinct (Node.distinct_alter (fun o m _ eq => ?_) rest)
    cases eq
    exact new

theorem distinct_erase (distinct : t.Distinct) (place : Place) : (t.erase place).Distinct := by
  cases place with
  | nil => exact distinct
  | cons name rest =>
    exact Node.distinct_alterEntry distinct (Node.distinct_alter (fun _ _ _ h => by cases h) rest)

theorem kind_put (distinct : t.Distinct) (there : t.kind folder = some .directory)
    (leaf : t.kind (folder ++ [x]) ≠ some .directory) (bare : n.Bare) :
    (t.put (folder ++ [x]) n).kind = Function.update t.kind (folder ++ [x]) (some n.kind) :=
  kind_alter distinct there leaf fun _ eq => by cases eq; exact bare

theorem kind_erase (distinct : t.Distinct) (there : t.kind folder = some .directory)
    (leaf : t.kind (folder ++ [x]) ≠ some .directory) :
    (t.erase (folder ++ [x])).kind = Function.update t.kind (folder ++ [x]) none :=
  kind_alter distinct there leaf fun _ h => by cases h

end FileTree
end AirRelease
