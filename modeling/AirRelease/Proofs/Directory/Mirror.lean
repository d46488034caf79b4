import AirRelease.Proofs.Directory.Save
import AirRelease.Proofs.Store.Format
import AirRelease.Store.Memory

namespace AirRelease

open FileTree (Fits)
open AirRelease.Path (IsName)

-- What has a file of its own.
inductive Slot
  | apps
  | history (key : AccessKey)
  | lock (target : LockTarget)

namespace Slot

-- Where the file is in the store's directory.
def trail : Slot → List String
  | apps => []
  | history _ => ["history"]
  | lock _ => ["locks"]

def file : Slot → String
  | apps => "apps.json"
  | history key => key.text ++ ".json"
  | lock target => Directory.lockFile target

theorem last_file (slot : Slot) :
    slot.file.toList.getLast? = some 'n' ∨ slot.file.toList.getLast? = some 'k' := by
  match slot with
  | apps => exact .inl (by decide)
  | history key => exact .inl (by simp [file])
  | lock .registry => exact .inr (by decide)
  | lock (.history key) =>
    have last : ".lock".toList.getLast? = some 'k' := by decide
    exact .inr (by rw [file, Directory.lockFile, String.toList_append, List.getLast?_append, last]; rfl)

theorem file_ne (slot : Slot) {c : Char} {x : String} (ends : Ends c x) (n : c ≠ 'n') (k : c ≠ 'k') :
    slot.file ≠ x := by
  rintro rfl
  rcases slot.last_file with last | last
  · exact n (Option.some.inj (ends.last.symm.trans last))
  · exact k (Option.some.inj (ends.last.symm.trans last))

theorem eq_of_file {slot slot' : Slot} (trail : slot.trail = slot'.trail) (file : slot.file = slot'.file) :
    slot = slot' := by
  match slot, slot' with
  | apps, apps => rfl
  | history ⟨key⟩, history ⟨key'⟩ =>
    have text : key = key' := by simpa [Slot.file] using file
    rw [text]
  | lock target, lock target' => rw [Directory.lockFile_inj file]
  | apps, history _ | apps, lock _ | history _, apps | lock _, apps => cases trail
  | history _, lock _ | lock _, history _ => exact absurd (List.cons.inj trail).1 (by decide)

end Slot

-- The value is in the file, or it is the one that stands for no file.
def Shows {α : Type} (toJson : α → Json) (empty x : α) (k : Option Kind) : Prop :=
  k = none ∧ x = empty ∨ k = some (.file (toJson x).pretty.toUTF8)

-- What stands in the place of the file. A history that has never been saved has none.
def Memory.Expects (s : Memory) : Slot → Option Kind → Prop
  | .apps, k => Shows Registry.toJson .empty s.apps k
  | .history key, k => k = (s.histories.lookup key).map fun h => .file h.toJson.pretty.toUTF8
  | .lock target, k => if target ∈ s.held then ∃ bytes, k = some (.file bytes) else k = none

theorem Memory.Expects.ne_directory {s : Memory} {slot : Slot} {k : Option Kind} (expects : s.Expects slot k) :
    k ≠ some .directory := by
  rintro rfl
  match slot with
  | .apps => exact expects.elim (fun none => nomatch none.1) nofun
  | .history key =>
    rw [Expects] at expects
    cases lookup : s.histories.lookup key <;> simp [lookup] at expects
  | .lock target =>
    simp only [Expects] at expects
    split at expects
    · exact nomatch expects
    · exact nomatch expects

section Histories

variable {s : Memory} {key other : AccessKey} {h : History}

theorem Memory.shows_history {k : Option Kind} (expects : s.Expects (.history key) k) :
    Shows History.toJson .empty (s.history key) k := by
  rw [Expects] at expects
  cases lookup : s.histories.lookup key with
  | none => exact .inl ⟨by rw [expects, lookup]; rfl, by rw [Memory.history, lookup]; rfl⟩
  | some h => exact .inr (by rw [expects, Memory.history, lookup]; rfl)

theorem Memory.lookup_eraseHistory_self (s : Memory) (key : AccessKey) :
    (s.eraseHistory key).histories.lookup key = none := by
  rw [List.lookup_eq_none_iff]
  intro e mem
  exact bne_iff_ne.mpr (Ne.symm (of_decide_eq_true (List.mem_filter.mp mem).2))

theorem Memory.lookup_eraseHistory_of_ne (s : Memory) (ne : other ≠ key) :
    (s.eraseHistory key).histories.lookup other = s.histories.lookup other :=
  lookup_filter_of_ne _ ne

theorem Memory.lookup_setHistory_self (s : Memory) (key : AccessKey) (h : History) :
    (s.setHistory key h).histories.lookup key = some h :=
  List.lookup_cons_self

theorem Memory.lookup_setHistory_of_ne (s : Memory) (ne : other ≠ key) (h : History) :
    (s.setHistory key h).histories.lookup other = s.histories.lookup other := by
  rw [← s.lookup_eraseHistory_of_ne ne, setHistory, List.lookup_cons, beq_eq_false_iff_ne.mpr ne]

end Histories

namespace Approach

variable {a : Approach} {s s' : Memory} {kinds : Place → Option Kind} {k : Option Kind} {q trail : List String}
  {x : String} {slot : Slot}

def file (a : Approach) (slot : Slot) : Place :=
  a.here ++ (a.below ++ slot.trail) ++ [slot.file]

-- The directory holds what the memory does, and nothing stands in the way of other files.
structure Mirrors (a : Approach) (s : Memory) (kinds : Place → Option Kind) : Prop where
  clear : ∀ slot : Slot, ∀ front, front <+: a.below ++ slot.trail →
    kinds (a.here ++ front) = none ∨ kinds (a.here ++ front) = some .directory
  drafts : ∀ q x, Ends 'p' x → kinds (a.here ++ (a.below ++ q) ++ [x]) ≠ some .directory
  slots : ∀ slot, s.Expects slot (kinds (a.file slot))

-- Past the directory, the ways to the files have only these names.
theorem ends_of_passed (pre : a.below ++ q ++ [x] <+: a.below ++ slot.trail) : Ends 'y' x ∨ Ends 's' x := by
  rw [List.append_assoc, List.prefix_append_right_inj] at pre
  have mem : x ∈ slot.trail := pre.subset (by simp)
  match slot with
  | .apps => cases mem
  | .history _ =>
    cases List.mem_singleton.mp mem
    exact .inl ⟨by decide, by decide⟩
  | .lock _ =>
    cases List.mem_singleton.mp mem
    exact .inr ⟨by decide, by decide⟩

theorem ne_way {front : List String} (pre : front <+: a.below ++ slot.trail) (y : ¬Ends 'y' x)
    (s : ¬Ends 's' x) : a.here ++ front ≠ a.here ++ (a.below ++ q) ++ [x] := by
  rw [List.append_assoc]
  intro same
  rw [List.append_cancel_left same] at pre
  exact (ends_of_passed pre).elim y s

theorem file_ne_way {front : List String} {slot' : Slot} (pre : front <+: a.below ++ slot.trail) :
    a.here ++ front ≠ a.file slot' :=
  ne_way pre (fun ends => slot'.file_ne ends nofun nofun rfl) fun ends => slot'.file_ne ends nofun nofun rfl

theorem draft_ne_way {front : List String} (pre : front <+: a.below ++ slot.trail) (ends : Ends 'p' x) :
    a.here ++ front ≠ a.here ++ (a.below ++ q) ++ [x] :=
  ne_way pre (fun other => ends.ne other nofun rfl) fun other => ends.ne other nofun rfl

theorem file_ne_draft (ends : Ends 'p' x) : a.file slot ≠ a.here ++ (a.below ++ q) ++ [x] := by
  intro same
  have last := congrArg List.getLast? same
  rw [file, List.getLast?_concat, List.getLast?_concat] at last
  exact slot.file_ne ends nofun nofun (Option.some.inj last)

theorem file_inj {slot' : Slot} (same : a.file slot = a.file slot') : slot = slot' := by
  obtain ⟨front, last⟩ := List.append_inj' same rfl
  exact Slot.eq_of_file (List.append_cancel_left (List.append_cancel_left front)) (List.cons.inj last).1

section Change

theorem Mirrors.makesAlong {h h' : Host} (mirrors : a.Mirrors s h.files.kind) (slot : Slot)
    (makes : a.MakesAlong (a.below ++ slot.trail) h h') : a.Mirrors s h'.files.kind := by
  constructor
  case clear =>
    intro slot' front pre
    rcases makes.kind (a.here ++ front) with same | ⟨_, made, _⟩
    · exact same ▸ mirrors.clear slot' front pre
    · exact .inr made
  case drafts =>
    intro q x ends
    rcases makes.kind (a.here ++ (a.below ++ q) ++ [x]) with same | ⟨_, _, front, pre, at_⟩
    · exact same ▸ mirrors.drafts q x ends
    · exact absurd at_.symm (draft_ne_way pre ends)
  case slots =>
    intro slot'
    rcases makes.kind (a.file slot') with same | ⟨_, _, front, pre, at_⟩
    · exact same ▸ mirrors.slots slot'
    · exact absurd at_.symm (file_ne_way pre)

variable (mirrors : a.Mirrors s kinds)
include mirrors

theorem Mirrors.update_draft (ends : Ends 'p' x) (leaf : k ≠ some .directory) :
    a.Mirrors s (Function.update kinds (a.here ++ (a.below ++ q) ++ [x]) k) := by
  constructor
  case clear =>
    intro slot front pre
    rw [Function.update_of_ne (draft_ne_way pre ends)]
    exact mirrors.clear slot front pre
  case drafts =>
    intro q' x' ends'
    rw [Function.update_apply]
    split
    · exact leaf
    · exact mirrors.drafts q' x' ends'
  case slots =>
    intro slot
    rw [Function.update_of_ne (file_ne_draft ends)]
    exact mirrors.slots slot

theorem Mirrors.update_file (expects : s'.Expects slot k)
    (others : ∀ other, other ≠ slot → ∀ k, s.Expects other k → s'.Expects other k) :
    a.Mirrors s' (Function.update kinds (a.file slot) k) := by
  constructor
  case clear =>
    intro slot' front pre
    rw [Function.update_of_ne (file_ne_way pre)]
    exact mirrors.clear slot' front pre
  case drafts =>
    intro q x ends
    rw [Function.update_of_ne (file_ne_draft ends).symm]
    exact mirrors.drafts q x ends
  case slots =>
    intro slot'
    rw [Function.update_apply]
    split
    case isTrue same => exact file_inj same ▸ expects
    case isFalse other =>
      exact others slot' (fun same => other (congrArg a.file same)) _ (mirrors.slots slot')

end Change

end Approach
end AirRelease
