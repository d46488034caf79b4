import AirRelease.Bundle
import AirRelease.Host
import AirRelease.Proofs.Files.Access
import AirRelease.Proofs.State

namespace AirRelease

open FileTree (Proper)
open AirRelease.Path (IsName IsPart intercalate_inj)

namespace Node

-- No directory holds two entries of one name, and each name is one that leads a step further down.
inductive WellNamed : Node → Prop
  | file : WellNamed (file bytes)
  | link : WellNamed (link target)
  | directory (distinct : (entries.map (·.1)).Nodup) (names : ∀ e ∈ entries, IsName e.1 ∧ e.1 ≠ "..")
      (below : ∀ e ∈ entries, WellNamed e.2) :
    WellNamed (directory entries)

theorem WellNamed.of_leaves {entries : List (String × Node)} (distinct : (entries.map (·.1)).Nodup)
    (names : ∀ e ∈ entries, IsName e.1 ∧ e.1 ≠ "..") (leaves : ∀ e ∈ entries, e.2.fileType ≠ .directory) :
    (Node.directory entries).WellNamed := by
  refine .directory distinct names fun e mem => ?_
  have leaf := leaves e mem
  cases h : e.2 with
  | file => exact .file
  | link => exact .link
  | directory => exact absurd (h ▸ rfl) leaf

-- A node and all nodes below it, with the names that lead to them.
mutual

def nodesBelow (above : Place) : Node → List (Place × Node)
  | .file bytes => [(above, .file bytes)]
  | .link target => [(above, .link target)]
  | .directory entries => (above, .directory entries) :: nodesAmong above entries

def nodesAmong (above : Place) : List (String × Node) → List (Place × Node)
  | [] => []
  | (name, n) :: rest => nodesBelow (above ++ [name]) n ++ nodesAmong above rest

end

variable {above q : Place} {n m : Node} {es : List (String × Node)}

theorem nodesAmong_eq_flatMap (above : Place) (es : List (String × Node)) :
    nodesAmong above es = es.flatMap fun e => nodesBelow (above ++ [e.1]) e.2 := by
  induction es with
  | nil => rfl
  | cons e rest ih => rw [nodesAmong, ih, List.flatMap_cons]

theorem mem_nodesAmong {x : Place × Node} :
    x ∈ nodesAmong above es ↔ ∃ e ∈ es, x ∈ nodesBelow (above ++ [e.1]) e.2 := by
  rw [nodesAmong_eq_flatMap, List.mem_flatMap]

theorem forall_mem_nodesBelow {P : Place × Node → Prop} : (∀ x ∈ nodesBelow above (.directory es), P x) ↔
    P (above, .directory es) ∧ ∀ e ∈ es, ∀ x ∈ nodesBelow (above ++ [e.1]) e.2, P x := by
  simp only [nodesBelow, List.forall_mem_cons, mem_nodesAmong]
  exact and_congr_right fun _ => ⟨fun all e among x mem => all x ⟨e, among, mem⟩,
    fun all x ⟨e, among, mem⟩ => all e among x mem⟩

theorem self_mem_nodesBelow (n : Node) : (above, n) ∈ nodesBelow above n := by
  cases n <;> simp [nodesBelow]

mutual

theorem entry_mem_nodesBelow {e : String × Node} (among : e ∈ es) : ∀ {above : Place} {n : Node},
    (q, .directory es) ∈ nodesBelow above n → (q ++ [e.1], e.2) ∈ nodesBelow above n
  | _, .file _, mem => by simp [nodesBelow] at mem
  | _, .link _, mem => by simp [nodesBelow] at mem
  | above, .directory ds, mem => by
    rcases List.mem_cons.mp mem with eq | mem
    · cases eq
      exact List.mem_cons_of_mem _ (mem_nodesAmong.mpr ⟨e, among, self_mem_nodesBelow _⟩)
    · exact List.mem_cons_of_mem _ (entry_mem_nodesAmong among mem)

theorem entry_mem_nodesAmong {e : String × Node} (among : e ∈ es) : ∀ {above : Place} {ds : List (String × Node)},
    (q, .directory es) ∈ nodesAmong above ds → (q ++ [e.1], e.2) ∈ nodesAmong above ds
  | _, [], mem => nomatch mem
  | _, (_, _) :: _, mem => by
    rcases List.mem_append.mp mem with mem | mem
    · exact List.mem_append_left _ (entry_mem_nodesBelow among mem)
    · exact List.mem_append_right _ (entry_mem_nodesAmong among mem)

end

theorem place_of_mem (named : n.WellNamed) (mem : (q, m) ∈ nodesBelow above n) :
    ∃ rest, q = above ++ rest ∧ n.at? rest = some m ∧ ∀ x ∈ rest, IsName x ∧ x ≠ ".." := by
  induction named generalizing above with
  | file | link =>
    cases List.mem_singleton.mp mem
    exact ⟨[], by simp, rfl, nofun⟩
  | @directory entries distinct names _ ih =>
    rcases List.mem_cons.mp mem with eq | mem
    case inl =>
      cases eq
      exact ⟨[], by simp, rfl, nofun⟩
    case inr =>
      obtain ⟨e, among, mem⟩ := mem_nodesAmong.mp mem
      obtain ⟨rest, place, there, further⟩ := ih e among mem
      refine ⟨e.1 :: rest, by simp [place], ?_, List.forall_mem_cons.mpr ⟨names e among, further⟩⟩
      rw [at?, under?_of_mem distinct among, Option.bind_some, there]

end Node

namespace Bundle

-- The files below a node with their paths from there. Links do not count.
mutual

def filesBelow (above : List String) : Node → List (String × ByteArray)
  | .file bytes => [("/".intercalate above, bytes)]
  | .link _ => []
  | .directory entries => filesAmong above entries

def filesAmong (above : List String) : List (String × Node) → List (String × ByteArray)
  | [] => []
  | (name, n) :: rest => filesBelow (above ++ [name]) n ++ filesAmong above rest

end

variable {above q : Place} {n : Node} {es : List (String × Node)} {file : String × ByteArray} {bytes : ByteArray}

theorem filesAmong_eq_flatMap (above : Place) (es : List (String × Node)) :
    filesAmong above es = es.flatMap fun e => filesBelow (above ++ [e.1]) e.2 := by
  induction es with
  | nil => rfl
  | cons e rest ih => rw [filesAmong, ih, List.flatMap_cons]

mutual

theorem mem_filesBelow_iff : ∀ {above : Place} {n : Node},
    file ∈ filesBelow above n ↔ ∃ q, (q, .file file.2) ∈ n.nodesBelow above ∧ file.1 = "/".intercalate q
  | above, .file bytes => by
    obtain ⟨path, contents⟩ := file
    simp [filesBelow, Node.nodesBelow, and_comm]
  | above, .link _ => by simp [filesBelow, Node.nodesBelow]
  | above, .directory es => by
    rw [filesBelow, mem_filesAmong_iff]
    simp [Node.nodesBelow]

theorem mem_filesAmong_iff : ∀ {above : Place} {es : List (String × Node)},
    file ∈ filesAmong above es ↔
      ∃ q, (q, .file file.2) ∈ Node.nodesAmong above es ∧ file.1 = "/".intercalate q
  | _, [] => by simp [filesAmong, Node.nodesAmong]
  | above, (name, n) :: rest => by
    rw [filesAmong, List.mem_append, mem_filesBelow_iff, mem_filesAmong_iff]
    simp only [Node.nodesAmong, List.mem_append, or_and_right, exists_or]

end

-- The files of a directory in the order of the manifest.
def sorted (files : List (String × ByteArray)) : List (String × ByteArray) :=
  files.mergeSort fun a b => a.1 ≤ b.1

theorem perm_sorted (files : List (String × ByteArray)) : (sorted files).Perm files :=
  List.mergeSort_perm files _

theorem mem_sorted {files : List (String × ByteArray)} : file ∈ sorted files ↔ file ∈ files :=
  (perm_sorted files).mem_iff

def ofFiles (files : List (String × ByteArray)) : Bundle :=
  ofListed (sorted files)

end Bundle

-- The system takes the paths of all directories and files below.
def Path.Reaches (root : Path) (es : List (String × Node)) : Prop :=
  ∀ e ∈ (Node.directory es).nodesBelow [], e.2.fileType ≠ .link → root.Takes e.1

instance (root : Path) (es : List (String × Node)) : Decidable (root.Reaches es) :=
  inferInstanceAs (Decidable (∀ e ∈ (Node.directory es).nodesBelow [], _))

-- Some part of the content could not be read.
def BundleError.IsUnreadable (e : BundleError) : Prop :=
  ∃ path fault, e = .unreadable path fault

namespace Bundle

section Reads

variable {α : Type} {h : Host} {path : Path}

theorem look_apply (path : Path) (x : StateM Host (Except Fault α)) (h : Host) :
    (look path x).run h = ((x h).1.mapError (BundleError.unreadable path), (x h).2) :=
  rfl

theorem reads_collectEntry {inner : Path → List String → ExceptT BundleError (StateM Host) (List String)}
    (reads : ∀ dir above, Reads (inner dir above)) (dir : Path) (above : List String) :
    ∀ entry, Reads (collectEntry inner dir above entry)
  | (_, .directory) => reads _ _
  | (_, .file) | (_, .link) => .pure _

theorem reads_collect (levels : Nat) : ∀ dir above, Reads (collect (m := StateM Host) levels dir above) := by
  induction levels with
  | zero => exact fun _ _ _ => rfl
  | succ levels ih =>
    exact fun _ _ => .bind (fun _ => rfl) fun _ => .bind (.mapM (reads_collectEntry ih _ _)) fun _ => .pure _

theorem reads_readFile (root : Path) (path : String) : Reads (readFile (m := StateM Host) root path) :=
  .bind (fun _ => rfl) fun _ => .pure _

theorem reads_listing : Reads (listing (m := StateM Host) path) :=
  .bind (reads_collect _ _ _) fun _ => .mapM (reads_readFile path)

end Reads

section Unreadable

variable {h : Host} {root : Path} {e : BundleError}

theorem isUnreadable_of_look {α : Type} {path : Path} {x : StateM Host (Except Fault α)}
    (failed : ((look path x).run h).1 = .error e) : e.IsUnreadable := by
  rw [look_apply] at failed
  cases result : (x h).1 with
  | error fault =>
    rw [result] at failed
    cases failed
    exact ⟨path, fault, rfl⟩
  | ok =>
    rw [result] at failed
    cases failed

theorem isUnreadable_of_collect {levels : Nat} {dir : Path} {above : List String}
    (failed : ((collect (m := StateM Host) levels dir above).run h).1 = .error e) : e.IsUnreadable := by
  induction levels generalizing dir above e with
  | zero =>
    cases failed
    exact ⟨dir, .nameTooLong, rfl⟩
  | succ levels ih =>
    have entriesRead := reads_collectEntry (reads_collect levels) dir above
    have each : ∀ entry e, ((collectEntry (collect (m := StateM Host) levels) dir above entry).run h).1 = .error e →
        e.IsUnreadable
      | (_, .directory), _, failed => ih failed
    rw [collect, Reads.result_bind (fun _ => rfl)] at failed
    rcases bind_eq_error.mp failed with failed | ⟨entries, _, failed⟩
    case inl => exact isUnreadable_of_look failed
    case inr =>
      rw [Reads.result_bind (.mapM entriesRead), Reads.result_mapM entriesRead] at failed
      rcases bind_eq_error.mp failed with failed | ⟨_, _, failed⟩
      case inl => exact error_of_mapM (fun entry _ => each entry) failed
      case inr => cases failed

theorem isUnreadable_of_listing (failed : ((listing (m := StateM Host) root).run h).1 = .error e) :
    e.IsUnreadable := by
  rw [listing, Reads.result_bind (reads_collect _ _ _)] at failed
  rcases bind_eq_error.mp failed with failed | ⟨_, _, failed⟩
  case inl => exact isUnreadable_of_collect failed
  case inr =>
    rw [Reads.result_mapM (reads_readFile root)] at failed
    refine error_of_mapM (fun path _ e failed => ?_) failed
    rw [readFile, Reads.result_bind (fun _ => rfl)] at failed
    rcases bind_eq_error.mp failed with failed | ⟨_, _, failed⟩
    case inl => exact isUnreadable_of_look failed
    case inr => cases failed

theorem result_ofDirectory (root : Path) (h : Host) : ((ofDirectory (m := StateM Host) root).run h).1 =
    ((listing (m := StateM Host) root).run h).1 >>= fun files =>
      if (ofListed files).size = 0 then .error (.empty root) else .ok (ofListed files) := by
  rw [ofDirectory, Reads.result_bind reads_listing]
  congr
  funext files
  by_cases empty : (ofListed files).size = 0
  · simp only [empty, if_true]
    rfl
  · simp only [empty, if_false]
    rfl

end Unreadable

section Directory

variable {h : Host} {root : Path} {top : List (String × Node)}
  (found : h.files.node h.base root = .ok (.directory top)) (named : (Node.directory top).WellNamed)
include found named

theorem node_below_eq_ok {n' : Node} (mem : (q, n) ∈ (Node.directory top).nodesBelow [])
    (unlinked : n.fileType ≠ .link) :
    h.files.node h.base (root.below q) = .ok n' ↔ root.Takes q ∧ n' = n := by
  obtain ⟨here, reached, there⟩ := FileTree.node_eq_ok.mp found
  obtain ⟨_, rfl, below, names⟩ := Node.place_of_mem named mem
  have directory : h.files.kind here = some .directory := FileTree.kind_eq_directory.mpr ⟨top, there⟩
  have goes_on : h.files.at? (here ++ q) = some n := by
    rw [FileTree.at?, Node.at?_append, ← FileTree.at?, there]
    exact below
  exact FileTree.node_below_eq_ok reached directory (fun x mem => (names x mem).1)
    (fun x mem => ⟨(names x mem).1.not_dot, (names x mem).2⟩) goes_on unlinked

omit named in
theorem text_ne_of_found : root.text ≠ "" := by
  obtain ⟨_, located, _⟩ := FileTree.node_eq_ok.mp found
  obtain ⟨_, check, _⟩ := bind_eq_ok.mp (FileTree.locate_eq ▸ located)
  exact (Path.check_eq_ok.mp check).2.1

theorem list_below_eq_ok {entries : List (String × FileType)}
    (mem : (q, .directory es) ∈ (Node.directory top).nodesBelow []) :
    h.files.list h.base (root.below q) = .ok entries ↔
      root.Takes q ∧ entries = es.map fun e => (e.1, e.2.fileType) := by
  simp [FileTree.list_eq_ok, node_below_eq_ok found named mem nofun]

theorem collect_eq_ok {levels : Nat} {paths : List String}
    (mem : (above, .directory es) ∈ (Node.directory top).nodesBelow [])
    (enough : FileTree.maxPathLength ≤ above.length + levels) :
    ((collect (m := StateM Host) levels (root.below above) above).run h).1 = .ok paths ↔
      (∀ e ∈ (Node.directory es).nodesBelow above, e.2.fileType = .directory → root.Takes e.1) ∧
        paths = (filesAmong above es).map (·.1) := by
  induction levels generalizing above es paths with
  | zero =>
    refine iff_of_false nofun fun ⟨takes, _⟩ => ?_
    obtain ⟨_, rfl, _, names⟩ := Node.place_of_mem named mem
    have bounded : above.length < FileTree.maxPathLength :=
      (takes _ (Node.self_mem_nodesBelow _) rfl).length_lt (fun x mem => (names x mem).1) (text_ne_of_found found)
    omega
  | succ levels ih =>
    have each : ∀ e ∈ es, ∀ paths,
        ((collectEntry (collect (m := StateM Host) levels) (root.below above) above
          (e.1, e.2.fileType)).run h).1 = .ok paths ↔
        (∀ d ∈ e.2.nodesBelow (above ++ [e.1]), d.2.fileType = .directory → root.Takes d.1) ∧
          paths = (filesBelow (above ++ [e.1]) e.2).map (·.1) := by
      rintro ⟨name, n⟩ among paths
      cases n with
      | directory ds =>
        have below := Node.entry_mem_nodesBelow among mem
        simp only [collectEntry, Node.fileType, ← Path.below_concat]
        exact ih below (by simp; omega)
      | file bytes => simp [collectEntry, Node.fileType, Node.nodesBelow, filesBelow, eq_comm]
      | link target => simp [collectEntry, Node.fileType, Node.nodesBelow, filesBelow, eq_comm]
    have listed {entries} : ((look (m := StateM Host) (root.below above) (Disk.list (root.below above))).run h).1 =
        .ok entries ↔ root.Takes above ∧ entries = es.map fun e => (e.1, e.2.fileType) := by
      rw [look_apply, mapError_eq_ok, ← list_below_eq_ok found named mem]
      rfl
    have joined : (es.map fun e => (filesBelow (above ++ [e.1]) e.2).map (·.1)).flatten =
        (filesAmong above es).map (·.1) := by
      rw [filesAmong_eq_flatMap, List.map_flatMap, List.flatMap_def]
    have entriesRead := reads_collectEntry (reads_collect levels) (root.below above) above
    rw [collect, Reads.result_bind (fun _ => rfl), bind_eq_ok]
    simp only [listed, and_assoc, exists_and_left, exists_eq_left, Reads.result_bind (.mapM entriesRead),
      Reads.result_mapM entriesRead, bind_eq_ok, List.mapM_map, Function.comp_def, mapM_eq_ok_iff each,
      joined, run_pure_eq_ok, Node.forall_mem_nodesBelow]
    exact and_congr_left' ⟨fun takes _ => takes, fun takes => takes rfl⟩

omit named in
theorem load_of_found : ((load root : StateM Host _) h).1 = ((listing (m := StateM Host) root).run h).1 >>=
    fun files => if (ofListed files).size = 0 then .error (.empty root) else .ok (ofListed files) := by
  have type : (Disk.fileType root : StateM Host _) h = (.ok .directory, h) := by
    rw [show (Disk.fileType root : StateM Host _) h = ((h.files.node h.base root).map Node.fileType, h) from rfl, found]
    rfl
  rw [load, bind_apply, type]
  exact result_ofDirectory root h

omit found in
theorem names_of_mem (mem : (q, .file bytes) ∈ (Node.directory top).nodesBelow []) :
    q ≠ [] ∧ ∀ x ∈ q, IsName x := by
  obtain ⟨_, rfl, there, names⟩ := Node.place_of_mem named mem
  refine ⟨?_, fun x mem => (names x mem).1⟩
  rintro rfl
  cases there

omit found in
theorem parts_of_mem (mem : (q, .file bytes) ∈ (Node.directory top).nodesBelow []) :
    (Path.mk ("/".intercalate q)).parts = q :=
  have ⟨ne, names⟩ := names_of_mem named mem
  Path.parts_intercalate (fun x mem => (names x mem).whole) ne

-- The path of each file is the one of its place.
theorem read_eq_ok {file : String × ByteArray} (mem : file ∈ filesAmong [] top) {bytes : ByteArray} :
    h.files.read h.base (root.join ⟨file.1⟩) = .ok bytes ↔
      root.Takes (Path.mk file.1).parts ∧ bytes = file.2 := by
  obtain ⟨q, mem, path⟩ := mem_filesAmong_iff.mp mem
  have below := List.mem_cons_of_mem ([], .directory top) mem
  have ⟨ne, names⟩ := names_of_mem named below
  rw [path, parts_of_mem named below, Path.join_intercalate names ne, FileTree.read_eq_ok,
    node_below_eq_ok found named below nofun, Node.file.injEq]

-- The directories and the files are all that has to be taken.
omit found in
theorem reaches_iff : root.Reaches top ↔
    (∀ e ∈ (Node.directory top).nodesBelow [], e.2.fileType = .directory → root.Takes e.1) ∧
      ∀ file ∈ filesAmong [] top, root.Takes (Path.mk file.1).parts := by
  constructor
  case mp =>
    refine fun reaches => ⟨fun e mem type => reaches e mem (by simp [type]), fun file mem => ?_⟩
    obtain ⟨q, mem, path⟩ := mem_filesAmong_iff.mp mem
    have below := List.mem_cons_of_mem ([], .directory top) mem
    rw [path, parts_of_mem named below]
    exact reaches _ below nofun
  case mpr =>
    rintro ⟨directories, files⟩ ⟨q, n⟩ mem unlinked
    cases n with
    | directory => exact directories _ mem rfl
    | link => exact absurd rfl unlinked
    | file bytes =>
      have among : (q, .file bytes) ∈ Node.nodesAmong [] top := by simpa [Node.nodesBelow] using mem
      have takes : root.Takes (Path.mk ("/".intercalate q)).parts := 
        files ("/".intercalate q, bytes) (mem_filesAmong_iff.mpr ⟨q, among, rfl⟩)
      rwa [parts_of_mem named mem] at takes

theorem readFile_eq_ok {loaded : String × ByteArray} (mem : file ∈ filesAmong [] top) :
    ((readFile (m := StateM Host) root file.1).run h).1 = .ok loaded ↔
      root.Takes (Path.mk file.1).parts ∧ loaded = file := by
  have read {bytes} : ((look (m := StateM Host) (root.join ⟨file.1⟩) (Disk.read (root.join ⟨file.1⟩))).run h).1 =
      .ok bytes ↔ root.Takes (Path.mk file.1).parts ∧ bytes = file.2 := by
    rw [look_apply, mapError_eq_ok, ← read_eq_ok found named mem]
    rfl
  rw [readFile, Reads.result_bind (fun _ => rfl), bind_eq_ok]
  simp only [read, run_pure_eq_ok, and_assoc, exists_and_left, exists_eq_left]

theorem listing_eq_ok {files : List (String × ByteArray)} :
    ((listing (m := StateM Host) root).run h).1 = .ok files ↔
      root.Reaches top ∧ files = sorted (filesAmong [] top) := by
  have collected {paths} : ((collect (m := StateM Host) FileTree.maxPathLength (root.below []) []).run h).1 =
      .ok paths ↔ _ :=
    collect_eq_ok found named (Node.self_mem_nodesBelow _) (Nat.zero_add _).ge
  have each : ∀ file ∈ sorted (filesAmong [] top), ∀ loaded,
      ((readFile (m := StateM Host) root file.1).run h).1 = .ok loaded ↔
        root.Takes (Path.mk file.1).parts ∧ loaded = file :=
    fun file mem _ => readFile_eq_ok found named (mem_sorted.mp mem)
  have inOrder : ((filesAmong [] top).map (·.1)).mergeSort (· ≤ ·) = (sorted (filesAmong [] top)).map (·.1) :=
    (List.map_mergeSort (f := Prod.fst) fun _ _ _ _ => rfl).symm
  rw [Path.below_nil] at collected
  rw [listing, Reads.result_bind (reads_collect _ _ _), bind_eq_ok, reaches_iff named, and_assoc]
  simp only [collected, and_assoc, exists_and_left, exists_eq_left, inOrder, Reads.result_mapM (reads_readFile root),
    List.mapM_map, Function.comp_def, mapM_eq_ok_iff each, List.map_id', mem_sorted]

-- What becomes of a directory that is there.
theorem load_directory (reaches : root.Reaches top) : ((load root : StateM Host _) h).1 =
    if (ofFiles (filesAmong [] top)).size = 0 then .error (.empty root) else .ok (ofFiles (filesAmong [] top)) := by
  rw [load_of_found found, (listing_eq_ok found named).mpr ⟨reaches, rfl⟩]
  rfl

theorem load_eq_unreadable (beyond : ¬root.Reaches top) :
    ∃ e : BundleError, e.IsUnreadable ∧ ((load root : StateM Host _) h).1 = .error e := by
  cases result : ((listing (m := StateM Host) root).run h).1 with
  | ok files => exact absurd ((listing_eq_ok found named).mp result).1 beyond
  | error e => exact ⟨e, isUnreadable_of_listing result, by rw [load_of_found found, result, error_bind]⟩

end Directory

end Bundle
end AirRelease
