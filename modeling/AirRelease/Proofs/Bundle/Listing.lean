import Mathlib.Data.List.Nodup
import AirRelease.Proofs.Bundle.Manifest
import AirRelease.Proofs.Files.Host

namespace AirRelease

open AirRelease.Bundle (filesBelow filesAmong)
open AirRelease.Path (IsPart intercalate_inj)

-- Two lists of entries that differ in the order in which directories are listed, here or further down.
inductive Reordered : List (String × Node) → List (String × Node) → Prop
  | perm (perm : es.Perm es') : Reordered es es'
  | within (inner : Reordered below below') :
    Reordered ((name, .directory below) :: es) ((name, .directory below') :: es)
  | trans (first : Reordered es es') (second : Reordered es' es'') : Reordered es es''

-- Two lists of entries that hold the same files in the same places.
inductive Alike : List (String × Node) → List (String × Node) → Prop
  | refl : Alike es es
  | symm (alike : Alike es es') : Alike es' es
  | trans (first : Alike es es') (second : Alike es' es'') : Alike es es''
  | cons (alike : Alike es es') : Alike (e :: es) (e :: es')
  | within (alike : Alike below below') :
    Alike ((name, .directory below) :: es) ((name, .directory below') :: es)
  | swap : Alike (e :: e' :: es) (e' :: e :: es)
  | link : Alike ((name, .link target) :: es) es
  | hollow : Alike ((name, .directory []) :: es) es

-- The bytes of all files together.
mutual

def Node.bytesBelow : Node → Nat
  | .file bytes => bytes.size
  | .link _ => 0
  | .directory entries => bytesAmong entries

def Node.bytesAmong : List (String × Node) → Nat
  | [] => 0
  | (_, n) :: rest => n.bytesBelow + bytesAmong rest

end

namespace Reordered

variable {es es' : List (String × Node)}

-- The same things stand in the same places.
theorem perm_nodesAmong (reordered : Reordered es es') (above : Place) :
    ((Node.nodesAmong above es).map fun x => (x.1, x.2.fileType)).Perm
      ((Node.nodesAmong above es').map fun x => (x.1, x.2.fileType)) := by
  induction reordered generalizing above with
  | perm perm =>
    simp only [Node.nodesAmong_eq_flatMap]
    exact (perm.flatMap_right _).map _
  | within _ ih =>
    simp only [Node.nodesAmong, Node.nodesBelow, List.map_append, List.map_cons]
    exact ((ih _).cons _).append_right _
  | trans _ _ ih ih' => exact (ih above).trans (ih' above)

theorem reaches {path : Path} (reordered : Reordered es es') (reaches : path.Reaches es) : path.Reaches es' := by
  have perm : (((Node.directory es).nodesBelow []).map fun x => (x.1, x.2.fileType)).Perm
      (((Node.directory es').nodesBelow []).map fun x => (x.1, x.2.fileType)) := by
    rw [Node.nodesBelow, Node.nodesBelow, List.map_cons, List.map_cons]
    exact (reordered.perm_nodesAmong []).cons _
  intro x mem unlinked
  obtain ⟨y, mem, eq⟩ := List.mem_map.mp (perm.mem_iff.mpr (List.mem_map_of_mem mem))
  obtain ⟨place, type⟩ := Prod.mk.inj eq
  exact place ▸ reaches y mem (type ▸ unlinked)

end Reordered

namespace Alike

variable {es es' : List (String × Node)}

-- The files are met in another order, but each of them as often as before.
theorem perm_filesAmong (alike : Alike es es') (above : List String) :
    (filesAmong above es).Perm (filesAmong above es') := by
  induction alike generalizing above with
  | refl => exact .refl _
  | symm _ ih => exact (ih above).symm
  | trans _ _ ih ih' => exact (ih above).trans (ih' above)
  | cons _ ih =>
    simp only [filesAmong]
    exact (ih above).append_left _
  | within _ ih =>
    simp only [filesAmong, filesBelow]
    exact (ih _).append_right _
  | swap =>
    simp only [filesAmong, ← List.append_assoc]
    exact List.perm_append_comm.append_right _
  | link | hollow => simp only [filesAmong, filesBelow, List.nil_append, List.Perm.refl]

end Alike

namespace Bundle

variable {above : List String} {es es' : List (String × Node)} {files files' : List (String × ByteArray)}
  {file : String × ByteArray} {n : Node}

mutual

theorem size_filesBelow (above : List String) : ∀ n,
    ((filesBelow above n).map (·.2.size)).sum = n.bytesBelow
  | .file _ => rfl
  | .link _ => rfl
  | .directory es => size_filesAmong above es

theorem size_filesAmong (above : List String) : ∀ es,
    ((filesAmong above es).map (·.2.size)).sum = Node.bytesAmong es
  | [] => rfl
  | (name, n) :: rest => by
    rw [filesAmong, List.map_append, List.sum_append, size_filesBelow (above ++ [name]) n,
      size_filesAmong above rest, Node.bytesAmong]

end

section Paths

-- The path of a file goes on from the directory by names.
theorem path_of_mem (named : n.WellNamed) (mem : file ∈ filesBelow above n) :
    ∃ rest, file.1 = "/".intercalate (above ++ rest) ∧ ∀ x ∈ rest, IsPart x := by
  obtain ⟨_, mem, path⟩ := mem_filesBelow_iff.mp mem
  obtain ⟨rest, rfl, _, names⟩ := Node.place_of_mem named mem
  exact ⟨rest, path, fun x mem => (names x mem).1.whole⟩

-- Under different names there are files of different paths.
theorem paths_ne {e e' : String × Node} {file' : String × ByteArray} (above_parts : ∀ x ∈ above, IsPart x)
    (part : IsPart e.1) (part' : IsPart e'.1) (named : e.2.WellNamed) (named' : e'.2.WellNamed)
    (mem : file ∈ filesBelow (above ++ [e.1]) e.2) (mem' : file' ∈ filesBelow (above ++ [e'.1]) e'.2)
    (ne : e.1 ≠ e'.1) : file.1 ≠ file'.1 := by
  intro same
  have ⟨rest, path, further⟩ := path_of_mem named mem
  have ⟨rest', path', further'⟩ := path_of_mem named' mem'
  rw [path, path', List.append_assoc, List.append_assoc] at same
  have names := intercalate_inj
    (List.forall_mem_append.mpr ⟨above_parts, List.forall_mem_cons.mpr ⟨part, further⟩⟩)
    (List.forall_mem_append.mpr ⟨above_parts, List.forall_mem_cons.mpr ⟨part', further'⟩⟩)
    (by simp) (by simp) same
  exact ne (List.cons.inj (List.append_cancel_left names)).1

theorem nodup_filesBelow (named : n.WellNamed) (above_parts : ∀ x ∈ above, IsPart x) :
    ((filesBelow above n).map (·.1)).Nodup := by
  induction named generalizing above with
  | file => exact List.nodup_singleton _
  | link => exact List.nodup_nil
  | @directory entries distinct names below ih =>
    rw [filesBelow]
    induction entries with
    | nil => exact List.nodup_nil
    | cons e rest ih' =>
      rw [List.forall_mem_cons] at names below ih
      rw [List.map_cons, List.nodup_cons] at distinct
      rw [filesAmong, List.map_append, List.nodup_append]
      refine ⟨?first, ih' distinct.2 names.2 below.2 ih.2, ?apart⟩
      case first => exact ih.1 (List.forall_mem_append.mpr ⟨above_parts, List.forall_mem_singleton.mpr names.1.1.whole⟩)
      case apart =>
        simp only [List.mem_map]
        rintro _ ⟨file, mem, rfl⟩ _ ⟨file', later, rfl⟩
        obtain ⟨e', among, mem'⟩ := List.mem_flatMap.mp (filesAmong_eq_flatMap above rest ▸ later)
        have ne : e.1 ≠ e'.1 := fun same => distinct.1 (same ▸ List.mem_map_of_mem among)
        exact paths_ne above_parts names.1.1.whole (names.2 e' among).1.whole below.1 (below.2 e' among) mem mem' ne

end Paths

-- Files of different paths have one order only.
theorem sorted_eq_of_perm (nodup : (files.map (·.1)).Nodup) (perm : files.Perm files') :
    sorted files = sorted files' := by
  have inOrder (files : List (String × ByteArray)) :
      (sorted files).Pairwise fun a b => decide (a.1 ≤ b.1) = true :=
    List.pairwise_mergeSort (by simpa using fun _ _ _ => String.le_trans)
      (by simpa using fun _ _ => String.le_total _ _) files
  refine List.Perm.eq_of_pairwise (fun a b mem mem' le ge => ?_) (inOrder files) (inOrder files')
    ((perm_sorted files).trans (perm.trans (perm_sorted files').symm))
  have same : a.1 = b.1 := String.le_antisymm (of_decide_eq_true le) (of_decide_eq_true ge)
  exact List.inj_on_of_nodup_map nodup (mem_sorted.mp mem) (perm.mem_iff.mpr (mem_sorted.mp mem')) same

theorem ofFiles_eq_of_perm (nodup : (files.map (·.1)).Nodup) (perm : files.Perm files') :
    ofFiles files = ofFiles files' := by
  have unfolded (files : List (String × ByteArray)) : ofFiles files =
      ⟨Sha256.hex (manifest files), ((sorted files).map (·.2.size)).foldl (· + ·) 0, .directory⟩ := rfl
  rw [unfolded, unfolded, manifest, manifest, sorted_eq_of_perm nodup perm]

-- The answer for a directory at a path, if this is its bundle.
structure Answers (b : Bundle) (path : Path) (es : List (String × Node)) (r : Except BundleError Bundle) : Prop where
  within : path.Reaches es → r = if b.size = 0 then .error (.empty path) else .ok b
  beyond : ¬path.Reaches es → ∃ e : BundleError, e.IsUnreadable ∧ r = .error e

theorem answers_load {path : Path} {h : Host} (found : h.files.node h.base path = .ok (.directory es))
    (named : (Node.directory es).WellNamed) :
    (ofFiles (filesAmong [] es)).Answers path es ((load path : StateM Host _) h).1 where
  within := load_directory found named
  beyond := load_eq_unreadable found named

-- Directories that hold the same files are bundles of one fingerprint, size and kind, or both are empty,
-- wherever the system takes all the paths. The order in which directories are listed never matters.
theorem load_alike (alike : Alike es es') (named : (Node.directory es).WellNamed)
    (named' : (Node.directory es').WellNamed) (path path' : Path) (h h' : Host)
    (found : h.files.node h.base path = .ok (.directory es))
    (found' : h'.files.node h'.base path' = .ok (.directory es')) :
    (∃ b : Bundle, b.kind = .directory ∧ b.size = Node.bytesAmong es ∧
      b.Answers path es ((load path : StateM Host _) h).1 ∧ b.Answers path' es' ((load path' : StateM Host _) h').1) ∧
    (path' = path → Reordered es es' →
      (∀ e : BundleError, e.IsUnreadable → ((load path : StateM Host _) h).1 ≠ .error e) →
      ((load path' : StateM Host _) h').1 = ((load path : StateM Host _) h).1) := by
  have perm := alike.perm_filesAmong []
  have nodup : ((filesAmong [] es).map (·.1)).Nodup := nodup_filesBelow named nofun
  have same : ofFiles (filesAmong [] es) = ofFiles (filesAmong [] es') := ofFiles_eq_of_perm nodup perm
  have answers := answers_load found named
  have answers' := answers_load found' named'
  rw [← same] at answers'
  refine ⟨⟨_, rfl, by rw [size_ofFiles, size_filesAmong], answers, answers'⟩, ?_⟩
  rintro rfl reordered readable
  have reaches : path'.Reaches es := by
    by_contra beyond
    obtain ⟨e, unreadable, refused⟩ := answers.beyond beyond
    exact readable e unreadable refused
  rw [answers.within reaches, answers'.within (reordered.reaches reaches)]

-- The same three files elsewhere, listed the other way round, beside a link and an empty directory.
theorem load_alike_moved :
    let a : String × Node := ("a", .file letter)
    let b : String × Node := ("b", .file letter)
    let main : String × Node := ("main.js", .file letter)
    let es := [main, ("lib", .directory [a, b])]
    let es' := [("lib", .directory [b, ("c", .link ⟨"a"⟩), a]), ("tmp", .directory []), main]
    let h : Host := ⟨⟨[("old", .directory es)]⟩, [], ⟨0, 0⟩, []⟩
    let h' : Host := ⟨⟨[("srv", .directory [("new", .directory es')])]⟩, [], ⟨0, 0⟩, []⟩
    Alike es es' ∧ (Node.directory es).WellNamed ∧ (Node.directory es').WellNamed ∧
      h.files.node h.base ⟨"old"⟩ = .ok (.directory es) ∧
      h'.files.node h'.base ⟨"srv/new"⟩ = .ok (.directory es') ∧
      ∃ b : Bundle, b.size = 3 ∧ ((load ⟨"old"⟩ : StateM Host _) h).1 = .ok b ∧
        ((load ⟨"srv/new"⟩ : StateM Host _) h').1 = .ok b := by
  intro a b main es es' h h'
  have inner : Alike [a, b] [b, ("c", .link ⟨"a"⟩), a] := .trans .swap (.cons (.symm .link))
  have alike : Alike es es' := .trans .swap (.trans (.within inner) (.cons (.symm .hollow)))
  have lib : (Node.directory [a, b]).WellNamed := .of_leaves (by decide) (by decide +kernel) (by decide)
  have lib' : (Node.directory [b, ("c", .link ⟨"a"⟩), a]).WellNamed :=
    .of_leaves (by decide) (by decide +kernel) (by decide)
  have tmp : (Node.directory []).WellNamed := .of_leaves (by decide) nofun nofun
  have named : (Node.directory es).WellNamed :=
    .directory (by decide) (by decide +kernel) (by simpa [es, main, Node.WellNamed.file] using lib)
  have named' : (Node.directory es').WellNamed :=
    .directory (by decide) (by decide +kernel) (by simpa [es', main, Node.WellNamed.file, tmp] using lib')
  have found : h.files.node h.base ⟨"old"⟩ = .ok (.directory es) :=
    FileTree.node_eq_ok.mpr ⟨["old"], by decide +kernel, rfl⟩
  have found' : h'.files.node h'.base ⟨"srv/new"⟩ = .ok (.directory es') :=
    FileTree.node_eq_ok.mpr ⟨["srv", "new"], by decide +kernel, rfl⟩
  obtain ⟨⟨bundle, _, size, answers, answers'⟩, _⟩ :=
    load_alike alike named named' ⟨"old"⟩ ⟨"srv/new"⟩ h h' found found'
  have three : bundle.size = 3 := size
  have loaded := answers.within (by decide +kernel)
  have loaded' := answers'.within (by decide +kernel)
  rw [three] at loaded loaded'
  exact ⟨alike, named, named', found, found', bundle, three, loaded, loaded'⟩

section Slashes

variable {x : String} {k : Nat}

-- The path of a directory may end with slashes.
def slashed (x : String) (k : Nat) : Path :=
  ⟨x ++ String.ofList ('/' :: List.replicate k '/')⟩

theorem size_slashed : (slashed x k).text.utf8ByteSize = x.utf8ByteSize + (k + 1) := by
  have size (k : Nat) : String.utf8Len (List.replicate k '/') = k := by
    induction k with
    | zero => rfl
    | succ k ih => rw [List.replicate_succ, String.utf8Len_cons, ih]; rfl
  rw [slashed, String.utf8ByteSize_append, String.utf8ByteSize_ofList, ← List.replicate_succ, size]

theorem steps_slashed (part : IsPart x) (ne : x ≠ "") : (slashed x k).steps = [x, "."] := by
  have split (k : Nat) : (List.replicate k '/').splitOn '/' = List.replicate (k + 1) [] := by
    induction k with
    | zero => rfl
    | succ k ih =>
      have first := Path.splitOn_append [] (List.replicate k '/')
      rw [ih] at first
      exact first
  have parts : (slashed x k).parts = x :: List.replicate (k + 1) "" := by
    rw [Path.parts, slashed, String.toList_append, String.toList_ofList, Path.splitOn_append,
      Path.splitOn_of_isPart part, split]
    simp
  have last : (slashed x k).parts.getLast? = some "" := by
    rw [parts, List.replicate_succ', ← List.cons_append, List.getLast?_concat]
  have names : (slashed x k).parts.filter (· ≠ "") = [x] := by simp [parts, ne]
  rw [Path.steps]
  simp only [last, names]
  exact if_pos ⟨trivial, List.cons_ne_nil _ _⟩

theorem check_slashed (clean : '\x00' ∉ x.toList) (short : x.utf8ByteSize + (k + 1) ≤ FileTree.maxPathLength) :
    (slashed x k).check = .ok () := by
  refine Path.check_eq_ok.mpr ⟨?_, fun empty => ?_, size_slashed ▸ short⟩
  · rw [slashed, String.toList_append, String.toList_ofList, ← List.replicate_succ]
    simp [clean]
  · have size := size_slashed (x := x) (k := k)
    rw [empty] at size
    simp at size

end Slashes

-- The copy is at the end of a path of thousands of slashes, where the name of the file is one too many.
theorem not_load_elsewhere :
    ¬∀ (es : List (String × Node)) (path path' : Path) (h : Host) (b : Bundle), (Node.directory es).WellNamed →
      h.files.node h.base path = .ok (.directory es) → h.files.node h.base path' = .ok (.directory es) →
      ((load path : StateM Host _) h).1 = .ok b → ((load path' : StateM Host _) h).1 = .ok b := by
  intro moves
  let far := slashed "copy" 4085
  let es : List (String × Node) := [("main.js", .file letter)]
  let h : Host := ⟨⟨[("tree", .directory es), ("copy", .directory es)]⟩, [], ⟨0, 0⟩, []⟩
  have named : (Node.directory es).WellNamed := .of_leaves (by decide) (by decide +kernel) (by decide)
  have found : h.files.node h.base ⟨"tree"⟩ = .ok (.directory es) :=
    FileTree.node_eq_ok.mpr ⟨["tree"], by decide +kernel, rfl⟩
  have start : far.start h.base = [] := ite_self _
  have found' : h.files.node h.base far = .ok (.directory es) := by
    refine FileTree.node_eq_ok.mpr ⟨["copy"], ?_, rfl⟩
    rw [FileTree.locate_eq, check_slashed (by decide) (by decide), steps_slashed (by simp [IsPart]) (by decide), start]
    decide +kernel
  have answered : ((load ⟨"tree"⟩ : StateM Host _) h).1 = .ok (ofFiles (filesAmong [] es)) :=
    (load_eq_ok found named).mpr
      ⟨by decide +kernel, ⟨("main.js", letter), by simp [es, filesAmong, filesBelow], Nat.one_pos⟩, rfl⟩
  have beyond : ¬far.Takes ["main.js"] := Path.not_takes_of_long (by simp [IsPart]) (by rw [size_slashed]; decide)
  have answered' := moves es ⟨"tree"⟩ far h _ named found found' answered
  have reaches := ((load_eq_ok found' named).mp answered').1
  exact beyond (reaches (["main.js"], .file letter) (by simp [es, Node.nodesBelow, Node.nodesAmong]) nofun)

end Bundle
end AirRelease
