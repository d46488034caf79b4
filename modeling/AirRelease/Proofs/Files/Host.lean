import AirRelease.Host
import AirRelease.Proofs.Files.Approach
import AirRelease.Proofs.State

namespace AirRelease

namespace Host

theorem attempt_cases (f : FileTree → Place → Except Fault FileTree) (h : Host) :
    (∃ files, f h.files h.base = .ok files ∧ attempt f h = (.ok (), { h with files })) ∨
      ∃ e, f h.files h.base = .error e ∧ attempt f h = (.error e, h) := by
  cases result : f h.files h.base with
  | ok files => exact .inl ⟨files, rfl, attempt_ok result⟩
  | error e => exact .inr ⟨e, rfl, attempt_error result⟩

end Host

section Timeless

variable {α β : Type} {x : StateM Host α} {f : α → StateM Host β}

-- The clock stands still meanwhile.
def Host.Timeless (x : StateM Host α) : Prop :=
  ∀ h, (x h).2.time = h.time

namespace Host.Timeless

theorem pure (a : α) : Timeless (pure a) :=
  fun _ => rfl

theorem bind (first : Timeless x) (rest : ∀ a, Timeless (f a)) : Timeless (x >>= f) :=
  fun h => (rest _ _).trans (first h)

theorem attempt (f : FileTree → Place → Except Fault FileTree) : Timeless (attempt f) := by
  intro h
  rcases attempt_cases f h with ⟨_, _, eq⟩ | ⟨_, _, eq⟩
  all_goals rw [eq]

end Host.Timeless

theorem Disk.timeless_readText (p : Path) : Host.Timeless (readText p) := by
  refine .bind (fun _ => rfl) fun r => ?_
  cases r <;> exact .pure _

end Timeless

theorem Disk.remove_apply (p : Path) (h : Host) : (remove p : StateM Host _) h =
    Host.attempt (fun t base => t.remove base p) h :=
  rfl

namespace Approach

variable {a : Approach} {h : Host} {p new : Path} {q : List String} {x y : String} {bytes : ByteArray}

-- The computer is one where the path can be approached.
structure On (a : Approach) (h : Host) : Prop where
  holds : a.Holds h.files
  base : h.base = a.base

-- What becomes of an operation on the files: it succeeds under a condition, with these kinds of files
-- afterwards.
def Tries (a : Approach) (op : StateM Host (Except Fault Unit)) (h : Host) (condition : Prop)
    (kinds : Place → Option Kind) : Prop :=
  (∃ h', op h = (.ok (), h') ∧ a.On h' ∧ condition ∧ h'.files.kind = kinds) ∨
    ∃ e, op h = (.error e, h) ∧ ¬condition

theorem tries_of {f : FileTree → Place → Except Fault FileTree} {condition : Prop}
    {kinds : Place → Option Kind} (base : h.base = a.base)
    (possible : condition → ∃ t, f h.files a.base = .ok t)
    (after : ∀ t, f h.files a.base = .ok t → condition ∧ a.Holds t ∧ t.kind = kinds) :
    a.Tries (Host.attempt f) h condition kinds := by
  rcases Host.attempt_cases f h with ⟨t, ok, eq⟩ | ⟨e, failed, eq⟩
  case inl =>
    obtain ⟨condition, holds, changed⟩ := after t (base ▸ ok)
    exact .inl ⟨_, eq, ⟨holds, base⟩, condition, changed⟩
  case inr =>
    refine .inr ⟨e, eq, fun condition => ?_⟩
    obtain ⟨t, ok⟩ := possible condition
    rw [base] at failed
    exact nomatch ok.symm.trans failed

variable (on : a.On h) (spells : a.Spells p (q ++ [x])) (follows : a.Follows (q ++ [x]))
include on spells follows

theorem makeDirectory_tries : a.Tries (Disk.makeDirectory p) h
    (a.Reachable h.files p q x ∧ h.files.kind (a.here ++ q ++ [x]) = none)
    (Function.update h.files.kind (a.here ++ q ++ [x]) (some .directory)) := by
  refine tries_of on.base (fun ⟨reach, free⟩ => ?_) fun t ok => ?_
  · exact ⟨_, (makeDirectory_iff on.holds spells follows).mpr ⟨reach, free, rfl⟩⟩
  · obtain ⟨reach, free, _⟩ := (makeDirectory_iff on.holds spells follows).mp ok
    have changes := makeDirectory_changes on.holds spells follows ok
    exact ⟨⟨reach, free⟩, changes.holds, changes.changed⟩

theorem write_tries (bytes : ByteArray) : a.Tries (Disk.write p bytes) h
    (a.Reachable h.files p q x ∧ h.files.kind (a.here ++ q ++ [x]) ≠ some .directory)
    (Function.update h.files.kind (a.here ++ q ++ [x]) (some (.file bytes))) := by
  refine tries_of on.base (fun ⟨reach, leaf⟩ => ?_) fun t ok => ?_
  · exact ⟨_, (write_iff on.holds spells follows).mpr ⟨reach, leaf, rfl⟩⟩
  · obtain ⟨reach, leaf, _⟩ := (write_iff on.holds spells follows).mp ok
    have changes := write_changes on.holds spells follows ok
    exact ⟨⟨reach, leaf⟩, changes.holds, changes.changed⟩

theorem remove_tries : a.Tries (Disk.remove p) h
    (a.Reachable h.files p q x ∧ h.files.kind (a.here ++ q ++ [x]) ≠ none ∧
      h.files.kind (a.here ++ q ++ [x]) ≠ some .directory)
    (Function.update h.files.kind (a.here ++ q ++ [x]) none) := by
  refine tries_of on.base (fun ⟨reach, there, leaf⟩ => ?_) fun t ok => ?_
  · exact ⟨_, (remove_iff on.holds spells follows).mpr ⟨reach, there, leaf, rfl⟩⟩
  · obtain ⟨reach, there, leaf, _⟩ := (remove_iff on.holds spells follows).mp ok
    have changes := remove_changes on.holds spells follows ok
    exact ⟨⟨reach, there, leaf⟩, changes.holds, changes.changed⟩

section Pair

variable (spells' : a.Spells new (q ++ [y])) (follows' : a.Follows (q ++ [y]))
  (file : h.files.kind (a.here ++ q ++ [x]) = some (.file bytes))
include spells' follows' file

theorem link_tries : a.Tries (Disk.link p new) h
    (a.Reachable h.files p q x ∧ a.Reachable h.files new q y ∧
      h.files.kind (a.here ++ q ++ [y]) = none)
    (Function.update h.files.kind (a.here ++ q ++ [y]) (some (.file bytes))) := by
  refine tries_of on.base (fun ⟨reach, reach', free⟩ => ?_) fun t ok => ?_
  · have there := FileTree.kind_eq_file.mp file
    exact ⟨_, (link_iff on.holds spells follows spells' follows').mpr
      ⟨reach, reach', free, _, there, rfl⟩⟩
  · obtain ⟨reach, reach', free, _⟩ := (link_iff on.holds spells follows spells' follows').mp ok
    have changes := link_changes on.holds spells follows spells' follows' file ok
    exact ⟨⟨reach, reach', free⟩, changes.holds, changes.changed⟩

theorem rename_tries : a.Tries (Disk.rename p new) h
    (a.Reachable h.files p q x ∧ a.Reachable h.files new q y ∧
      h.files.kind (a.here ++ q ++ [y]) ≠ some .directory)
    (Function.update (Function.update h.files.kind (a.here ++ q ++ [x]) none)
      (a.here ++ q ++ [y]) (some (.file bytes))) := by
  refine tries_of on.base (fun ⟨reach, reach', leaf⟩ => ?_) fun t ok => ?_
  · have there := FileTree.kind_eq_file.mp file
    exact ⟨_, (rename_iff on.holds spells follows spells' follows').mpr
      ⟨reach, reach', leaf, _, there, rfl⟩⟩
  · obtain ⟨reach, reach', leaf, _⟩ := (rename_iff on.holds spells follows spells' follows').mp ok
    obtain ⟨holds, changed⟩ := rename_changes on.holds spells follows spells' follows' file ok
    exact ⟨⟨reach, reach', leaf⟩, holds, changed⟩

end Pair
end Approach

-- A computer without any files.
def bare : Host :=
  ⟨⟨[]⟩, [], ⟨0, 0⟩, []⟩

def toNewData : Approach where
  base := []
  root := ⟨"data"⟩
  above := []
  here := []
  below := ["data"]
  split := by decide

theorem on_bare : toNewData.On bare where
  base := rfl
  holds := {
    distinct := .directory .nil nofun
    reached := rfl
    directory := rfl
    straight := fun x mem => by
      cases List.mem_singleton.mp mem
      exact ⟨⟨by decide, by decide⟩, by decide⟩
    plain := fun q _ _ => by cases q <;> exact nofun }

end AirRelease
