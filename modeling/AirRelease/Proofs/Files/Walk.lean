import AirRelease.Files.Access
import AirRelease.Proofs.Files.Tree

namespace AirRelease.FileTree

variable {t t' : FileTree} {follow : Bool} {n : Nat} {here place : Place} {name : String}
  {names : List String}

-- What a walk that follows at most so many links does at a link.
def pass (t : FileTree) (follow : Bool) : Nat → Place → List String → Except Fault Place
  | 0 => fun _ _ => .error .tooManyLinks
  | n + 1 => t.walk follow n

theorem walk_eq (t : FileTree) (follow : Bool) (n : Nat) :
    t.walk follow n = t.descend follow (t.pass follow n) := by
  cases n <;> rfl

section Step

theorem walk_nil : t.walk follow n here [] = .ok here := by
  rw [walk_eq]
  rfl

theorem walk_dot : t.walk follow n here ("." :: names) = t.walk follow n here names := by
  simp [walk_eq, descend]

theorem walk_up : t.walk follow n here (".." :: names) = t.walk follow n here.dropLast names := by
  simp [walk_eq, descend]

-- A name that is a step of its own, for something in the directory.
structure Proper (name : String) : Prop where
  not_dot : name ≠ "."
  not_up : name ≠ ".."

variable (proper : Proper name)
include proper

theorem walk_long (long : maxNameLength < name.utf8ByteSize) :
    t.walk follow n here (name :: names) = .error .nameTooLong := by
  simp [walk_eq, descend, proper.not_dot, proper.not_up, long]

theorem walk_cons (fits : name.utf8ByteSize ≤ maxNameLength) :
    t.walk follow n here (name :: names) =
      match t.kind (here ++ [name]) with
      | none => if names = [] then .ok (here ++ [name]) else .error .notFound
      | some .directory => t.walk follow n (here ++ [name]) names
      | some (.file _) => if names = [] then .ok (here ++ [name]) else .error .notDirectory
      | some (.link target) =>
        if names = [] ∧ ¬follow then .ok (here ++ [name])
        else t.pass follow n (if target.IsAbsolute then [] else here) (target.steps ++ names) := by
  rw [walk_eq, descend, if_neg proper.not_dot, if_neg proper.not_up, if_neg (Nat.not_lt.mpr fits), kind]
  cases t.at? (here ++ [name]) with
  | none => rfl
  | some node => cases node <;> rfl

end Step

-- Whatever a walk could pass through is still there.
structure Grown (t t' : FileTree) : Prop where
  directory : ∀ place, t.kind place = some .directory → t'.kind place = some .directory
  link : ∀ place target, t.kind place = some (.link target) → t'.kind place = some (.link target)

theorem Grown.refl (t : FileTree) : t.Grown t :=
  ⟨fun _ h => h, fun _ _ h => h⟩

-- A walk goes on by the names that are left, or at a link by other names with one link less.
@[elab_as_elim]
theorem walk_induction {motive : Nat → Place → List String → Prop}
    (nil : ∀ n here, motive n here [])
    (dot : ∀ n here names, motive n here names → motive n here ("." :: names))
    (up : ∀ n here names, motive n here.dropLast names → motive n here (".." :: names))
    (step : ∀ n here name names, Proper name → (∀ here, motive n here names) →
      (∀ m, n = m + 1 → ∀ here names, motive m here names) → motive n here (name :: names)) :
    ∀ n here names, motive n here names := by
  intro n
  induction n using Nat.strongRecOn with
  | ind n links =>
  intro here names
  induction names generalizing here with
  | nil => exact nil n here
  | cons name names ih =>
    by_cases is_dot : name = "."
    case pos => exact is_dot ▸ dot n here names (ih here)
    by_cases is_up : name = ".."
    case pos => exact is_up ▸ up n here names (ih here.dropLast)
    exact step n here name names ⟨is_dot, is_up⟩ ih fun m eq => links m (by omega)

-- A walk that reaches a directory does so in every grown tree, and further names lead on from there.
theorem walk_append (reached : t.walk true n here names = .ok place)
    (directory : t.kind place = some .directory) :
    ∃ m, ∀ t', t.Grown t' → ∀ follow rest, rest ≠ [] ∨ follow = true →
      t'.walk follow n here (names ++ rest) = t'.walk follow m place rest := by
  induction n, here, names using walk_induction with
  | nil n here =>
    rw [walk_nil] at reached
    cases reached
    exact ⟨n, fun _ _ _ _ _ => rfl⟩
  | dot n here names ih =>
    rw [walk_dot] at reached
    simpa only [List.cons_append, walk_dot] using ih reached
  | up n here names ih =>
    rw [walk_up] at reached
    simpa only [List.cons_append, walk_up] using ih reached
  | step n here name names proper ih links =>
    by_cases fits : name.utf8ByteSize ≤ maxNameLength
    case neg => simp [walk_long proper (Nat.lt_of_not_le fits)] at reached
    rw [walk_cons proper fits] at reached
    split at reached
    case h_1 missing =>
      split at reached <;> cases reached
      exact absurd (directory.symm.trans missing) nofun
    case h_2 passed =>
      obtain ⟨m, on⟩ := ih _ reached
      refine ⟨m, fun t' grown follow rest more => ?_⟩
      rw [List.cons_append, walk_cons proper fits, grown.directory _ passed]
      exact on t' grown follow rest more
    case h_3 file =>
      split at reached <;> cases reached
      exact absurd (directory.symm.trans file) nofun
    case h_4 target link =>
      rw [if_neg (by simp)] at reached
      cases n with
      | zero => cases reached
      | succ n =>
        obtain ⟨m, on⟩ := links n rfl _ _ reached
        refine ⟨m, fun t' grown follow rest more => ?_⟩
        have goes_on : ¬(names ++ rest = [] ∧ ¬follow) := by
          rintro ⟨none, unfollowed⟩
          rcases more with more | rfl
          · exact more (List.append_eq_nil_iff.mp none).2
          · exact unfollowed rfl
        rw [List.cons_append, walk_cons proper fits, grown.link _ _ link]
        simp only [if_neg goes_on, ← List.append_assoc]
        exact on t' grown follow rest more

theorem walk_grown (reached : t.walk true n here names = .ok place)
    (directory : t.kind place = some .directory) (grown : t.Grown t') :
    t'.walk true n here names = .ok place := by
  obtain ⟨m, on⟩ := walk_append reached directory
  simpa [walk_nil] using on t' grown true [] (.inr rfl)

-- Something stands where the walk ends if a link under the last name is not followed.
theorem walk_unfollowed (reached : t.walk true n here names = .ok place)
    (directory : t.kind place = some .directory) :
    ∃ last, t.walk false n here names = .ok last ∧ t.kind last ≠ none := by
  induction n, here, names using walk_induction with
  | nil n here =>
    rw [walk_nil] at reached
    cases reached
    exact ⟨place, walk_nil, by rw [directory]; exact nofun⟩
  | dot n here names ih =>
    rw [walk_dot] at reached ⊢
    exact ih reached
  | up n here names ih =>
    rw [walk_up] at reached ⊢
    exact ih reached
  | step n here name names proper ih links =>
    by_cases fits : name.utf8ByteSize ≤ maxNameLength
    case neg => simp [walk_long proper (Nat.lt_of_not_le fits)] at reached
    rw [walk_cons proper fits] at reached ⊢
    split at reached
    case h_1 missing =>
      split at reached <;> cases reached
      exact absurd (directory.symm.trans missing) nofun
    case h_2 => exact ih _ reached
    case h_3 file =>
      split at reached <;> cases reached
      exact absurd (directory.symm.trans file) nofun
    case h_4 target link =>
      rw [if_neg (by simp)] at reached
      by_cases last : names = []
      case pos => exact ⟨here ++ [name], by simp [last], by rw [link]; exact nofun⟩
      case neg =>
        simp only [last, false_and, if_false]
        cases n with
        | zero => cases reached
        | succ n => exact links n rfl _ _ reached

-- What stops a walk also stops the one that goes on from there.
theorem walk_append_of_error {e : Fault} {rest : List String} (more : rest ≠ [])
    (lost : t.walk true n here names = .error e) : t.walk follow n here (names ++ rest) = .error e := by
  induction n, here, names using walk_induction with
  | nil n here =>
    rw [walk_nil] at lost
    cases lost
  | dot n here names ih =>
    rw [walk_dot] at lost
    simpa only [List.cons_append, walk_dot] using ih lost
  | up n here names ih =>
    rw [walk_up] at lost
    simpa only [List.cons_append, walk_up] using ih lost
  | step n here name names proper ih links =>
    by_cases fits : name.utf8ByteSize ≤ maxNameLength
    case neg =>
      have long := Nat.lt_of_not_le fits
      rw [walk_long proper long] at lost
      rw [List.cons_append, walk_long proper long, lost]
    have on : ¬names ++ rest = [] := by simp [more]
    rw [walk_cons proper fits] at lost
    rw [List.cons_append, walk_cons proper fits]
    split at lost
    case h_1 missing =>
      simp only [on, if_false]
      split at lost <;> cases lost
      rfl
    case h_2 => exact ih _ lost
    case h_3 =>
      simp only [on, if_false]
      split at lost <;> cases lost
      rfl
    case h_4 target link =>
      rw [if_neg (by simp)] at lost
      simp only [on, false_and, if_false]
      cases n with
      | zero => exact lost
      | succ n => simpa only [pass, List.append_assoc] using links n rfl _ _ lost

-- If the last name is of a link that cannot be followed, then at least the link is there.
theorem walk_unfollowed_of_error {e : Fault} (lost : t.walk true n here names = .error e) :
    t.walk false n here names = .error e ∨
      ∃ last, t.walk false n here names = .ok last ∧ t.kind last ≠ none := by
  induction n, here, names using walk_induction with
  | nil n here =>
    rw [walk_nil] at lost
    cases lost
  | dot n here names ih =>
    rw [walk_dot] at lost ⊢
    exact ih lost
  | up n here names ih =>
    rw [walk_up] at lost ⊢
    exact ih lost
  | step n here name names proper ih links =>
    by_cases fits : name.utf8ByteSize ≤ maxNameLength
    case neg =>
      have long := Nat.lt_of_not_le fits
      rw [walk_long proper long] at lost ⊢
      exact .inl lost
    rw [walk_cons proper fits] at lost ⊢
    split at lost
    case h_1 | h_3 => exact .inl lost
    case h_2 => exact ih _ lost
    case h_4 target link =>
      rw [if_neg (by simp)] at lost
      by_cases last : names = []
      case pos => exact .inr ⟨here ++ [name], by simp [last], by rw [link]; exact nofun⟩
      case neg =>
        simp only [last, false_and, if_false]
        cases n with
        | zero => exact .inl lost
        | succ n => exact links n rfl _ _ lost

-- Dots before the last name make no difference.
theorem walk_filter {rest : List String} (more : rest ≠ []) :
    t.walk follow n here (names.filter (· ≠ ".") ++ rest) = t.walk follow n here (names ++ rest) := by
  induction n, here, names using walk_induction with
  | nil => rfl
  | dot n here names ih =>
    rw [List.cons_append, walk_dot, List.filter_cons_of_neg (by simp)]
    exact ih
  | up n here names ih =>
    rw [List.filter_cons_of_pos (by simp), List.cons_append, List.cons_append, walk_up, walk_up]
    exact ih
  | step n here name names proper ih links =>
    rw [List.filter_cons_of_pos (by simpa using proper.not_dot), List.cons_append, List.cons_append]
    by_cases fits : name.utf8ByteSize ≤ maxNameLength
    case neg => rw [walk_long proper (Nat.lt_of_not_le fits), walk_long proper (Nat.lt_of_not_le fits)]
    rw [walk_cons proper fits, walk_cons proper fits]
    have some_left (front : List String) : front ++ rest ≠ [] := by simp [more]
    simp only [some_left, if_false, false_and]
    split
    case h_1 | h_3 => rfl
    case h_2 => exact ih _
    case h_4 target _ =>
      cases n with
      | zero => rfl
      | succ n =>
        have same := links n rfl (if target.IsAbsolute then [] else here)
        have left := same (target.steps ++ names.filter (· ≠ "."))
        have right := same (target.steps ++ names)
        simp only [List.filter_append, List.filter_filter, Bool.and_self] at left right
        simp only [pass, ← List.append_assoc]
        exact left.symm.trans right

-- The name is not too long.
def Fits (name : String) : Prop :=
  name.utf8ByteSize ≤ maxNameLength

instance (name : String) : Decidable (Fits name) :=
  inferInstanceAs (Decidable (_ ≤ _))

section Seek

-- What a walk does that meets no link and no step back.
def seek (t : FileTree) (here : Place) : List String → Except Fault Place
  | [] => .ok here
  | name :: rest =>
    if maxNameLength < name.utf8ByteSize then .error .nameTooLong
    else
      match t.kind (here ++ [name]) with
      | some .directory => t.seek (here ++ [name]) rest
      | none => if rest = [] then .ok (here ++ [name]) else .error .notFound
      | some _ => if rest = [] then .ok (here ++ [name]) else .error .notDirectory

-- The names lead on without a step back and past no link.
structure Straight (t : FileTree) (here : Place) (names : List String) : Prop where
  proper : ∀ name ∈ names, Proper name
  plain : ∀ q, q <+: names → ∀ target, t.kind (here ++ q) ≠ some (.link target)

theorem Straight.tail (straight : t.Straight here (name :: names)) :
    t.Straight (here ++ [name]) names where
  proper x mem := straight.proper x (List.mem_cons_of_mem _ mem)
  plain q pre target := by
    simpa using straight.plain (name :: q) (List.cons_prefix_cons.mpr ⟨rfl, pre⟩) target

theorem straight_of_at? {node : Node} (proper : ∀ x ∈ names, Proper x)
    (there : t.at? (here ++ names) = some node) (unlinked : node.fileType ≠ .link) : t.Straight here names := by
  refine ⟨proper, fun q pre target link => ?_⟩
  obtain ⟨rest, rfl⟩ := pre
  cases rest with
  | nil =>
    rw [List.append_nil] at there
    rw [kind, there] at link
    cases node with
    | link => exact unlinked rfl
    | file | directory => cases link
  | cons x rest =>
    rw [← List.append_assoc] at there
    rw [directory_above there] at link
    cases link

theorem walk_eq_seek (straight : t.Straight here names) :
    t.walk follow n here names = t.seek here names := by
  induction names generalizing here with
  | nil => exact walk_nil
  | cons name names ih =>
    have proper := straight.proper name List.mem_cons_self
    rw [seek]
    split
    case isTrue long => exact walk_long proper long
    case isFalse fits =>
      rw [walk_cons proper (Nat.le_of_not_lt fits)]
      cases kind : t.kind (here ++ [name]) with
      | none => rfl
      | some k =>
        cases k with
        | directory => exact ih straight.tail
        | file => rfl
        | link target =>
          exact absurd kind (straight.plain [name] (List.prefix_append [name] names) target)

theorem seek_congr (same : ∀ q, q ≠ [] → q <+: names → t'.kind (here ++ q) = t.kind (here ++ q)) :
    t'.seek here names = t.seek here names := by
  induction names generalizing here with
  | nil => rfl
  | cons name names ih =>
    have first := same [name] (List.cons_ne_nil _ _) (List.prefix_append [name] names)
    have rest : t'.seek (here ++ [name]) names = t.seek (here ++ [name]) names := ih fun q _ pre => by
      simpa using same (name :: q) (List.cons_ne_nil _ _) (List.cons_prefix_cons.mpr ⟨rfl, pre⟩)
    simp only [seek, first, rest]

theorem place_of_seek (found : t.seek here names = .ok place) : place = here ++ names := by
  induction names generalizing here with
  | nil =>
    cases found
    simp
  | cons name names ih =>
    rw [seek] at found
    split at found
    · cases found
    · split at found
      case h_1 => simpa using ih found
      all_goals
        split at found <;> cases found
        simp_all

theorem seek_through {q rest : List String} (fits : ∀ x ∈ q, Fits x)
    (passed : t.kind (here ++ q) = some .directory) :
    t.seek here (q ++ rest) = t.seek (here ++ q) rest := by
  induction q generalizing here with
  | nil => simp
  | cons x q ih =>
    have first : t.kind (here ++ [x]) = some .directory := directory_of_append (by simpa using passed)
    have on : t.seek (here ++ [x]) (q ++ rest) = t.seek (here ++ [x] ++ q) rest :=
      ih (fun y mem => fits y (List.mem_cons_of_mem _ mem)) (by simpa using passed)
    rw [List.cons_append, seek, if_neg (Nat.not_lt.mpr (fits x List.mem_cons_self)), first]
    simpa using on

theorem seek_singleton :
    t.seek here [name] = if Fits name then .ok (here ++ [name]) else .error .nameTooLong := by
  simp only [seek, ite_true]
  by_cases fits : Fits name
  case pos =>
    rw [if_neg (Nat.not_lt.mpr fits), if_pos fits]
    cases t.kind (here ++ [name]) with
    | none => rfl
    | some kind => cases kind <;> rfl
  case neg => rw [if_pos (Nat.lt_of_not_le fits), if_neg fits]

theorem seek_cons_eq_ok (more : names ≠ []) :
    t.seek here (name :: names) = .ok place ↔
      Fits name ∧ t.kind (here ++ [name]) = some .directory ∧
        t.seek (here ++ [name]) names = .ok place := by
  simp only [seek, if_neg more]
  split
  case isTrue long => exact iff_of_false nofun fun ⟨fits, _⟩ => Nat.not_lt.mpr fits long
  case isFalse fits =>
    cases t.kind (here ++ [name]) with
    | none => simp
    | some kind => cases kind <;> simp [Fits, Nat.le_of_not_lt fits]

-- Where the names lead if the last of them may be of something new.
theorem seek_concat_eq_ok (directory : t.kind here = some .directory) :
    t.seek here (names ++ [name]) = .ok place ↔
      place = here ++ names ++ [name] ∧ t.kind (here ++ names) = some .directory ∧
        ∀ x ∈ names ++ [name], Fits x := by
  constructor
  case mp =>
    intro ok
    induction names generalizing here with
    | nil =>
      rw [List.nil_append, seek_singleton] at ok
      split at ok
      case isTrue fits =>
        cases ok
        exact ⟨by simp, by simpa using directory, by simpa using fits⟩
      case isFalse => cases ok
    | cons x names ih =>
      obtain ⟨fits, passed, ok⟩ := (seek_cons_eq_ok (by simp)).mp ok
      obtain ⟨eq, there, others⟩ := ih passed ok
      exact ⟨by simpa using eq, by simpa using there, List.forall_mem_cons.mpr ⟨fits, others⟩⟩
  case mpr =>
    rintro ⟨rfl, there, fits⟩
    rw [seek_through (fun x mem => fits x (List.mem_append_left _ mem)) there, seek_singleton,
      if_pos (fits name (by simp))]

-- What is missing is not found, if nothing but directories stands before it.
theorem seek_eq_notFound (directory : t.kind here = some .directory) (fits : ∀ x ∈ names ++ [name], Fits x)
    (clear : ∀ q, q <+: names → t.kind (here ++ q) = none ∨ t.kind (here ++ q) = some .directory)
    (missing : t.kind (here ++ names) ≠ some .directory) :
    t.seek here (names ++ [name]) = .error .notFound := by
  induction names generalizing here with
  | nil => exact absurd (by simpa using directory) missing
  | cons x names ih =>
    rw [List.cons_append, seek, if_neg (Nat.not_lt.mpr (fits x List.mem_cons_self))]
    rcases clear [x] (List.prefix_append [x] names) with none | there
    · simp [none]
    · rw [there]
      refine ih there (fun y mem => fits y (List.mem_cons_of_mem _ mem)) (fun q pre => ?_) ?_
      · simpa using clear (x :: q) (List.cons_prefix_cons.mpr ⟨rfl, pre⟩)
      · simpa using missing

end Seek

end AirRelease.FileTree
