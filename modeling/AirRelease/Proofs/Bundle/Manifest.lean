import Mathlib.Algebra.GroupWithZero.Nat
import AirRelease.Proofs.Bundle.Content

namespace AirRelease

-- No byte string of one list has the digest of another one of the other list.
def Sha256.Apart (xs ys : List ByteArray) : Prop :=
  ∀ x ∈ xs, ∀ y ∈ ys, hex x = hex y → x = y

theorem Sha256.colon_not_mem_hex (bytes : ByteArray) : ':' ∉ (hex bytes).toList := by
  intro mem
  rcases (spelt_hex bytes).digits ':' mem with ⟨_, digit⟩ | ⟨letter, _⟩
  · exact absurd digit (by decide)
  · exact absurd letter (by decide)

namespace Bundle

variable {file file' : String × ByteArray} {files files' : List (String × ByteArray)}

def manifest (files : List (String × ByteArray)) : ByteArray :=
  ((sorted files).map manifestLine).foldl (· ++ ·) ByteArray.empty

theorem hash_ofFiles (files : List (String × ByteArray)) : (ofFiles files).hash = Sha256.hex (manifest files) :=
  rfl

-- All byte strings that are hashed for the fingerprint of a directory.
def hashed (files : List (String × ByteArray)) : List ByteArray :=
  manifest files :: files.map (·.2)

section Line

-- The characters of a line.
def line (file : String × ByteArray) : List Char :=
  file.1.toList ++ ':' :: (Sha256.hex file.2).toList ++ ['\n']

theorem manifestLine_eq (file : String × ByteArray) :
    manifestLine file = (String.ofList (line file)).toUTF8 := by
  have text : file.1 ++ ":" ++ Sha256.hex file.2 ++ "\n" = String.ofList (line file) := by
    rw [← String.toList_inj]
    simp [line]
  rw [manifestLine, text]

theorem foldl_manifestLine (files : List (String × ByteArray)) (cs : List Char) :
    (files.map manifestLine).foldl (· ++ ·) (String.ofList cs).toUTF8 =
      (String.ofList (cs ++ files.flatMap line)).toUTF8 := by
  induction files generalizing cs with
  | nil => simp
  | cons file files ih =>
    have step : (String.ofList cs).toUTF8 ++ manifestLine file = (String.ofList (cs ++ line file)).toUTF8 := by
      rw [manifestLine_eq, String.ofList_append]
      exact String.toByteArray_append.symm
    rw [List.map_cons, List.foldl_cons, step, ih, List.flatMap_cons, List.append_assoc]

theorem manifest_eq (files : List (String × ByteArray)) :
    manifest files = (String.ofList ((sorted files).flatMap line)).toUTF8 :=
  foldl_manifestLine (sorted files) []

theorem lines_of_manifest_eq (same : manifest files = manifest files') :
    (sorted files).flatMap line = (sorted files').flatMap line := by
  rw [manifest_eq, manifest_eq] at same
  exact String.ofList_injective (String.toByteArray_inj.mp same)

-- A path that could be taken for a line and the path of another file.
def Misleading (path : String) : Prop :=
  ∃ file rest, path.toList = line file ++ rest

theorem not_misleading_of_not_mem {path : String} (single : '\n' ∉ path.toList) : ¬Misleading path := by
  rintro ⟨file, rest, starts⟩
  simp [starts, line] at single

-- Of two paths, the longer one goes on with the rest of the line of the other one. The colon that
-- follows it does not stand in the digest.
theorem eq_nil_of_longer {longer rest rest' : List Char} (plain : ¬Misleading file'.1)
    (path : file'.1.toList = file.1.toList ++ longer)
    (same : ':' :: ((Sha256.hex file.2).toList ++ '\n' :: rest) = longer ++ ':' :: rest') : longer = [] := by
  cases longer with
  | nil => rfl
  | cons c longer =>
    obtain ⟨rfl, after⟩ := List.cons.inj same
    rcases List.append_eq_append_iff.mp after with ⟨beyond, past, newline⟩ | ⟨beyond, digest, colon⟩
    case inl =>
      cases beyond with
      | nil => cases newline
      | cons d beyond =>
        cases newline
        exact absurd ⟨file, beyond, by simp [path, past, line]⟩ plain
    case inr =>
      cases beyond with
      | nil => cases colon
      | cons d beyond =>
        cases colon
        exact absurd (by simp [digest]) (Sha256.colon_not_mem_hex file.2)

theorem after_path_inj {rest rest' : List Char} (path : file.1 = file'.1)
    (same : ':' :: ((Sha256.hex file.2).toList ++ '\n' :: rest) =
      ':' :: ((Sha256.hex file'.2).toList ++ '\n' :: rest')) :
    file.1 = file'.1 ∧ Sha256.hex file.2 = Sha256.hex file'.2 ∧ rest = rest' := by
  have length : (Sha256.hex file.2).toList.length = (Sha256.hex file'.2).toList.length :=
    (Sha256.length_hex file.2).trans (Sha256.length_hex file'.2).symm
  obtain ⟨digest, newline⟩ := List.append_inj (List.cons.inj same).2 length
  exact ⟨path, String.toList_inj.mp digest, (List.cons.inj newline).2⟩

theorem line_append_inj {rest rest' : List Char} (plain : ¬Misleading file.1) (plain' : ¬Misleading file'.1)
    (same : line file ++ rest = line file' ++ rest') :
    file.1 = file'.1 ∧ Sha256.hex file.2 = Sha256.hex file'.2 ∧ rest = rest' := by
  simp only [line, List.append_assoc, List.cons_append, List.nil_append] at same
  rcases List.append_eq_append_iff.mp same with ⟨longer, path, after⟩ | ⟨longer, path, after⟩
  case inl =>
    obtain rfl := eq_nil_of_longer plain' path after
    rw [List.append_nil] at path
    exact after_path_inj (String.toList_inj.mp path.symm) after
  case inr =>
    obtain rfl := eq_nil_of_longer plain path after
    rw [List.append_nil] at path
    exact after_path_inj (String.toList_inj.mp path) after.symm

theorem eq_of_lines (plain : ∀ file ∈ files, ¬Misleading file.1) (plain' : ∀ file ∈ files', ¬Misleading file.1)
    (apart : ∀ file ∈ files, ∀ file' ∈ files', Sha256.hex file.2 = Sha256.hex file'.2 → file.2 = file'.2)
    (same : files.flatMap line = files'.flatMap line) : files = files' := by
  induction files generalizing files' with
  | nil =>
    cases files' with
    | nil => rfl
    | cons file' files' => simp [line] at same
  | cons file files ih =>
    cases files' with
    | nil => simp [line] at same
    | cons file' files' =>
      rw [List.forall_mem_cons] at plain plain'
      obtain ⟨path, digest, rest⟩ := line_append_inj plain.1 plain'.1 same
      have bytes : file.2 = file'.2 := apart _ List.mem_cons_self _ List.mem_cons_self digest
      have apart := fun f mem f' mem' => apart f (List.mem_cons_of_mem _ mem) f' (List.mem_cons_of_mem _ mem')
      rw [Prod.ext path bytes, ih plain.2 plain'.2 apart rest]

end Line

section Directory

variable {h h' : Host} {path path' : Path} {entries entries' : List (String × Node)} {b b' : Bundle}

theorem size_ofFiles (files : List (String × ByteArray)) :
    (ofFiles files).size = (files.map (·.2.size)).sum := by
  have size : (ofFiles files).size = ((sorted files).map (·.2.size)).foldl (· + ·) 0 := rfl
  rw [size, ← List.sum_eq_foldl]
  exact ((perm_sorted files).map _).sum_nat

theorem load_eq_ok (found : h.files.node h.base path = .ok (.directory entries))
    (named : (Node.directory entries).WellNamed) : ((load path : StateM Host _) h).1 = .ok b ↔
      path.Reaches entries ∧ (∃ file ∈ filesAmong [] entries, 0 < file.2.size) ∧ ofFiles (filesAmong [] entries) = b := by
  have filled :
      0 < (ofFiles (filesAmong [] entries)).size ↔ ∃ file ∈ filesAmong [] entries, 0 < file.2.size := by
    rw [size_ofFiles, List.sum_pos_iff_exists_pos_nat]
    simp only [List.mem_map, exists_exists_and_eq_and]
  by_cases reaches : path.Reaches entries
  case pos =>
    rw [load_directory found named reaches, ite_error_eq_ok, Except.ok.injEq, ← filled, Nat.pos_iff_ne_zero]
    exact (and_iff_right reaches).symm
  case neg =>
    obtain ⟨e, _, refused⟩ := load_eq_unreadable found named reaches
    exact iff_of_false (by simp [refused]) fun ⟨within, _⟩ => reaches within

-- Two directories with one fingerprint have the same files if no path misleads.
theorem perm_of_hash_eq (found : h.files.node h.base path = .ok (.directory entries))
    (found' : h'.files.node h'.base path' = .ok (.directory entries'))
    (named : (Node.directory entries).WellNamed) (named' : (Node.directory entries').WellNamed)
    (accepted : ((load path : StateM Host _) h).1 = .ok b)
    (accepted' : ((load path' : StateM Host _) h').1 = .ok b')
    (apart : Sha256.Apart (hashed (filesAmong [] entries)) (hashed (filesAmong [] entries')))
    (plain : ∀ file ∈ filesAmong [] entries, ¬Misleading file.1)
    (plain' : ∀ file ∈ filesAmong [] entries', ¬Misleading file.1) (same : b.hash = b'.hash) :
    (filesAmong [] entries).Perm (filesAmong [] entries') := by
  obtain ⟨_, _, rfl⟩ := (load_eq_ok found named).mp accepted
  obtain ⟨_, _, rfl⟩ := (load_eq_ok found' named').mp accepted'
  have manifests : manifest (filesAmong [] entries) = manifest (filesAmong [] entries') :=
    apart _ List.mem_cons_self _ List.mem_cons_self same
  have inOrder : sorted (filesAmong [] entries) = sorted (filesAmong [] entries') := by
    refine eq_of_lines ?_ ?_ ?_ (lines_of_manifest_eq manifests)
    · exact fun file mem => plain file (mem_sorted.mp mem)
    · exact fun file mem => plain' file (mem_sorted.mp mem)
    · intro file mem file' mem'
      exact apart _ (List.mem_cons_of_mem _ (List.mem_map_of_mem (mem_sorted.mp mem))) _
        (List.mem_cons_of_mem _ (List.mem_map_of_mem (mem_sorted.mp mem')))
  exact (perm_sorted _).symm.trans (inOrder ▸ perm_sorted _)

section Letters

def letter : ByteArray :=
  ⟨#[0x78]⟩

theorem hex_letter :
    Sha256.hex letter = "2d711642b726b04401627ca9fbac32f5c8530fb1903cc4db02258717921a4881" := by
  decide +kernel

-- The manifest of three files a, b and c, each with the one letter.
def letterLines : List Char :=
  line ("a", letter) ++ line ("b", letter) ++ line ("c", letter)

theorem letterLines_eq : String.ofList letterLines =
    "a:2d711642b726b04401627ca9fbac32f5c8530fb1903cc4db02258717921a4881\n" ++
    "b:2d711642b726b04401627ca9fbac32f5c8530fb1903cc4db02258717921a4881\n" ++
    "c:2d711642b726b04401627ca9fbac32f5c8530fb1903cc4db02258717921a4881\n" := by
  simp only [letterLines, line, hex_letter]
  decide +kernel

theorem hex_letterLines : Sha256.hex (String.ofList letterLines).toUTF8 ≠ Sha256.hex letter := by
  rw [letterLines_eq, hex_letter]
  decide +kernel

theorem manifest_eq_letterLines (text : (sorted files).flatMap line = letterLines) :
    manifest files = (String.ofList letterLines).toUTF8 := by
  rw [manifest_eq, text]

theorem hash_of_letterLines (text : (sorted files).flatMap line = letterLines) :
    (ofFiles files).hash = Sha256.hex (String.ofList letterLines).toUTF8 := by
  rw [hash_ofFiles, manifest_eq_letterLines text]

theorem cases_of_letterLines {x : ByteArray} (text : (sorted files).flatMap line = letterLines)
    (letters : ∀ file ∈ files, file.2 = letter) (mem : x ∈ hashed files) :
    x = (String.ofList letterLines).toUTF8 ∨ x = letter := by
  rw [hashed, List.mem_cons, List.mem_map, manifest_eq_letterLines text] at mem
  exact mem.imp_right fun ⟨file, mem, same⟩ => same.symm.trans (letters file mem)

theorem apart_of_letterLines (text : (sorted files).flatMap line = letterLines)
    (text' : (sorted files').flatMap line = letterLines) (letters : ∀ file ∈ files, file.2 = letter)
    (letters' : ∀ file ∈ files', file.2 = letter) : Sha256.Apart (hashed files) (hashed files') := by
  intro x mem y mem' same
  rcases cases_of_letterLines text letters mem with is | is <;>
    rcases cases_of_letterLines text' letters' mem' with is' | is'
  case inl.inl | inr.inr => exact is.trans is'.symm
  case inl.inr => exact absurd (is ▸ is' ▸ same) hex_letterLines
  case inr.inl => exact absurd (is ▸ is' ▸ same.symm) hex_letterLines

end Letters

-- The files are listed in another order, and there is a link among them.
theorem perm_of_hash_eq_listed :
    let entries : List (String × Node) := [("a", .file letter), ("b", .file letter), ("c", .file letter)]
    let entries' : List (String × Node) :=
      [("c", .file letter), ("a", .file letter), ("d", .link ⟨"a"⟩), ("b", .file letter)]
    let h : Host := ⟨⟨[("old", .directory entries), ("new", .directory entries')]⟩, [], ⟨0, 0⟩, []⟩
    h.files.node h.base ⟨"old"⟩ = .ok (.directory entries) ∧
      h.files.node h.base ⟨"new"⟩ = .ok (.directory entries') ∧
      (Node.directory entries).WellNamed ∧ (Node.directory entries').WellNamed ∧
      (∃ b b', ((load ⟨"old"⟩ : StateM Host _) h).1 = .ok b ∧ ((load ⟨"new"⟩ : StateM Host _) h).1 = .ok b' ∧
        b.hash = b'.hash) ∧
      Sha256.Apart (hashed (filesAmong [] entries)) (hashed (filesAmong [] entries')) ∧
      (∀ file ∈ filesAmong [] entries, ¬Misleading file.1) ∧
      (filesAmong [] entries).Perm (filesAmong [] entries') := by
  intro entries entries' h
  have found : h.files.node h.base ⟨"old"⟩ = .ok (.directory entries) :=
    FileTree.node_eq_ok.mpr ⟨["old"], by decide +kernel, rfl⟩
  have found' : h.files.node h.base ⟨"new"⟩ = .ok (.directory entries') :=
    FileTree.node_eq_ok.mpr ⟨["new"], by decide +kernel, rfl⟩
  have named : (Node.directory entries).WellNamed :=
    .of_leaves (by decide) (by decide +kernel) (by decide)
  have named' : (Node.directory entries').WellNamed :=
    .of_leaves (by decide) (by decide +kernel) (by decide)
  have text : (sorted (filesAmong [] entries)).flatMap line = letterLines := by
    simp [entries, sorted, filesAmong, filesBelow, List.mergeSort, letterLines]
  have text' : (sorted (filesAmong [] entries')).flatMap line = letterLines := by
    simp [entries', sorted, filesAmong, filesBelow, List.mergeSort, letterLines]
  have apart : Sha256.Apart (hashed (filesAmong [] entries)) (hashed (filesAmong [] entries')) := by
    apply apart_of_letterLines text text' <;> simp [entries, entries', filesAmong, filesBelow]
  have plain : ∀ file ∈ filesAmong [] entries, ¬Misleading file.1 := by
    refine fun file mem => not_misleading_of_not_mem ?_
    revert file
    simp [entries, filesAmong, filesBelow]
  have plain' : ∀ file ∈ filesAmong [] entries', ¬Misleading file.1 := by
    refine fun file mem => not_misleading_of_not_mem ?_
    revert file
    simp [entries', filesAmong, filesBelow]
  have hash : (ofFiles (filesAmong [] entries)).hash = (ofFiles (filesAmong [] entries')).hash :=
    (hash_of_letterLines text).trans (hash_of_letterLines text').symm
  have accepted : ((load ⟨"old"⟩ : StateM Host _) h).1 = .ok (ofFiles (filesAmong [] entries)) :=
    (load_eq_ok found named).mpr
      ⟨by decide +kernel, ⟨("a", letter), by simp [entries, filesAmong, filesBelow], Nat.one_pos⟩, rfl⟩
  have accepted' : ((load ⟨"new"⟩ : StateM Host _) h).1 = .ok (ofFiles (filesAmong [] entries')) :=
    (load_eq_ok found' named').mpr
      ⟨by decide +kernel, ⟨("a", letter), by simp [entries', filesAmong, filesBelow], Nat.one_pos⟩, rfl⟩
  exact ⟨found, found', named, named', ⟨_, _, accepted, accepted', hash⟩, apart, plain,
    perm_of_hash_eq found found' named named' accepted accepted' apart plain plain' hash⟩

-- Of the lines for a, b and c, the one for b is part of a name in both directories, but not of the same.
theorem not_files_of_hash_eq :
    ¬∀ (h h' : Host) (path path' : Path) (entries entries' : List (String × Node)) (b b' : Bundle),
      h.files.node h.base path = .ok (.directory entries) →
      h'.files.node h'.base path' = .ok (.directory entries') →
      (Node.directory entries).WellNamed → (Node.directory entries').WellNamed →
      ((load path : StateM Host _) h).1 = .ok b → ((load path' : StateM Host _) h').1 = .ok b' →
      Sha256.Apart (hashed (filesAmong [] entries)) (hashed (filesAmong [] entries')) →
      b.hash = b'.hash → ∀ file, file ∈ filesAmong [] entries ↔ file ∈ filesAmong [] entries' := by
  intro tells
  let digest := "2d711642b726b04401627ca9fbac32f5c8530fb1903cc4db02258717921a4881"
  let old : List (String × Node) := [("a", .file letter), ("b:" ++ digest ++ "\nc", .file letter)]
  let new : List (String × Node) := [("a:" ++ digest ++ "\nb", .file letter), ("c", .file letter)]
  let h : Host := ⟨⟨[("old", .directory old), ("new", .directory new)]⟩, [], ⟨0, 0⟩, []⟩
  have found : h.files.node h.base ⟨"old"⟩ = .ok (.directory old) :=
    FileTree.node_eq_ok.mpr ⟨["old"], by decide +kernel, rfl⟩
  have found' : h.files.node h.base ⟨"new"⟩ = .ok (.directory new) :=
    FileTree.node_eq_ok.mpr ⟨["new"], by decide +kernel, rfl⟩
  have named : (Node.directory old).WellNamed := .of_leaves (by decide +kernel) (by decide +kernel) (by decide)
  have named' : (Node.directory new).WellNamed := .of_leaves (by decide +kernel) (by decide +kernel) (by decide)
  have text : (sorted (filesAmong [] old)).flatMap line = letterLines := by
    simp [old, sorted, filesAmong, filesBelow, List.mergeSort, line, letterLines, hex_letter, digest]
  have text' : (sorted (filesAmong [] new)).flatMap line = letterLines := by
    simp [new, sorted, filesAmong, filesBelow, List.mergeSort, line, letterLines, hex_letter, digest]
  have apart : Sha256.Apart (hashed (filesAmong [] old)) (hashed (filesAmong [] new)) := by
    apply apart_of_letterLines text text' <;> simp [old, new, filesAmong, filesBelow]
  have hash : (ofFiles (filesAmong [] old)).hash = (ofFiles (filesAmong [] new)).hash :=
    (hash_of_letterLines text).trans (hash_of_letterLines text').symm
  have accepted : ((load ⟨"old"⟩ : StateM Host _) h).1 = .ok (ofFiles (filesAmong [] old)) :=
    (load_eq_ok found named).mpr
      ⟨by decide +kernel, ⟨("a", letter), by simp [old, filesAmong, filesBelow], Nat.one_pos⟩, rfl⟩
  have accepted' : ((load ⟨"new"⟩ : StateM Host _) h).1 = .ok (ofFiles (filesAmong [] new)) :=
    (load_eq_ok found' named').mpr
      ⟨by decide +kernel, ⟨("c", letter), by simp [new, filesAmong, filesBelow], Nat.one_pos⟩, rfl⟩
  have listed := tells h h ⟨"old"⟩ ⟨"new"⟩ old new _ _ found found' named named' accepted accepted' apart hash
    ("c", letter)
  simp [old, new, digest, filesAmong, filesBelow] at listed

end Directory

end Bundle
end AirRelease
