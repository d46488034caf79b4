import AirRelease.Proofs.Files.Linkless

namespace AirRelease

open FileTree (Proper Fits)
open AirRelease.Path (IsName)

namespace Host

-- A directory was made where one of the paths leads.
structure Made (paths : List Path) (h h' : Host) (place : Place) : Prop where
  free : h.files.kind place = none
  made : h'.files.kind place = some .directory
  along : ∃ p ∈ paths, p.place h.base = place

-- New directories where the paths lead are the only difference between the files.
structure Adds (paths : List Path) (h h' : Host) : Prop where
  base : h'.base = h.base
  distinct : h'.files.Distinct
  kind : ∀ place, h'.files.kind place = h.files.kind place ∨ Made paths h h' place

namespace Adds

variable {paths : List Path} {h h' h'' : Host} {p : Path} {place : Place}

theorem refl (sound : h.Linkless) : Adds paths h h :=
  ⟨rfl, sound.distinct, fun _ => .inl rfl⟩

theorem directory (adds : Adds paths h h') (there : h.files.kind place = some .directory) :
    h'.files.kind place = some .directory := by
  rcases adds.kind place with same | made
  · rw [same, there]
  · exact made.made

theorem linkless (adds : Adds paths h h') (sound : h.Linkless) : h'.Linkless where
  distinct := adds.distinct
  linkless place target := by
    rcases adds.kind place with same | made
    · rw [same]
      exact sound.linkless place target
    · rw [made.made]
      exact nofun
  base := adds.base ▸ adds.directory sound.base

theorem mono {paths' : List Path} (adds : Adds paths h h') (sub : paths ⊆ paths') : Adds paths' h h' where
  base := adds.base
  distinct := adds.distinct
  kind place := (adds.kind place).imp_right fun ⟨free, made, p, mem, at_⟩ => ⟨free, made, p, sub mem, at_⟩

theorem trans (first : Adds paths h h') (second : Adds paths h' h'') : Adds paths h h'' where
  base := second.base.trans first.base
  distinct := second.distinct
  kind place := by
    rcases second.kind place with same | ⟨free, made, p, mem, at_⟩
    · rcases first.kind place with same' | ⟨free, made, along⟩
      · exact .inl (same.trans same')
      · exact .inr ⟨free, same ▸ made, along⟩
    · rcases first.kind place with same' | other
      · exact .inr ⟨same' ▸ free, made, p, mem, first.base ▸ at_⟩
      · exact absurd (free.symm.trans other.made) nofun

end Adds

-- Nothing keeps directories from being made where the paths lead.
structure Open (paths : List Path) (h : Host) : Prop where
  check : ∀ p ∈ paths, p.check = .ok ()
  fits : ∀ p ∈ paths, ∀ x ∈ p.names, Fits x
  clear : ∀ p ∈ paths, h.files.kind (p.place h.base) = none ∨
    h.files.kind (p.place h.base) = some .directory

theorem Open.mono {paths paths' : List Path} {h : Host} (opened : Open paths' h) (sub : paths ⊆ paths') :
    Open paths h where
  check p mem := opened.check p (sub mem)
  fits p mem := opened.fits p (sub mem)
  clear p mem := opened.clear p (sub mem)

theorem Open.adds {paths : List Path} {h h' : Host} (opened : Open paths h) (adds : Adds paths h h') :
    Open paths h' where
  check := opened.check
  fits := opened.fits
  clear p mem := by
    rw [adds.base]
    rcases adds.kind (p.place h.base) with same | made
    · rw [same]
      exact opened.clear p mem
    · exact .inr made.made

end Host

theorem makeDirectory_cases (p : Path) (h : Host) :
    (∃ t, h.files.makeDirectory h.base p = .ok t ∧
      (Disk.makeDirectory p : StateM Host _) h = (.ok (), { h with files := t })) ∨
      ∃ e, h.files.makeDirectory h.base p = .error e ∧
        (Disk.makeDirectory p : StateM Host _) h = (.error e, h) :=
  Host.attempt_cases (·.makeDirectory · p) h

section Lineage

variable {h h' : Host} {p : Path} {names : List String} {x : String} {place : Place} (sound : h.Linkless)
include sound

section Step

variable (named : ∀ y ∈ names ++ [x], IsName y)
include named

theorem locate_way (follow : Bool) : h.files.locate h.base follow (.ofNames p.IsAbsolute (names ++ [x])) =
    (Path.ofNames p.IsAbsolute (names ++ [x])).check >>= fun _ =>
      names.foldlM h.files.into (p.start h.base) >>= fun next => FileTree.step next x := by
  refine FileTree.locate_ofNames sound.linkless (Path.directory_start sound p) ?_ named
  simp only [Path.start, decide_eq_true_iff]

theorem locate_way_eq_ok {follow : Bool} :
    h.files.locate h.base follow (.ofNames p.IsAbsolute (names ++ [x])) = .ok place ↔
      (Path.ofNames p.IsAbsolute (names ++ [x])).check = .ok () ∧ ∃ next,
        names.foldlM h.files.into (p.start h.base) = .ok next ∧ Fits x ∧ FileTree.turn next x = place := by
  simp only [locate_way sound named, bind_eq_ok, FileTree.step_eq_ok]
  constructor
  · rintro ⟨_, check, rest⟩
    exact ⟨check, rest⟩
  · rintro ⟨check, rest⟩
    exact ⟨(), check, rest⟩

theorem isDirectory_way :
    ((Disk.isDirectory (.ofNames p.IsAbsolute (names ++ [x])) : StateM Host Bool) h).1 = true ↔
      (Path.ofNames p.IsAbsolute (names ++ [x])).check = .ok () ∧
        ∃ place, (names ++ [x]).foldlM h.files.into (p.start h.base) = .ok place := by
  simp only [Disk.isDirectory_eq_true, locate_way_eq_ok sound named, FileTree.enter_concat,
    FileTree.into_eq_ok]
  constructor
  · rintro ⟨place, ⟨check, next, entered, fits, at_⟩, there⟩
    exact ⟨check, place, next, entered, fits, at_, there⟩
  · rintro ⟨check, place, next, entered, fits, at_, there⟩
    exact ⟨place, ⟨check, next, entered, fits, at_⟩, there⟩

theorem makeDirectory_ok {t : FileTree}
    (made : h.files.makeDirectory h.base (.ofNames p.IsAbsolute (names ++ [x])) = .ok t) :
    h.Adds [.ofNames p.IsAbsolute (names ++ [x])] { h with files := t } ∧
      ∃ place, (names ++ [x]).foldlM t.into (p.start h.base) = .ok place := by
  obtain ⟨place, located, free, rfl⟩ := FileTree.makeDirectory_eq_ok.mp made
  obtain ⟨_, next, entered, fits, at_⟩ := (locate_way_eq_ok sound named).mp located
  have folder := FileTree.directory_of_enter (Path.directory_start sound p) entered
  -- A step back leads to something that is there.
  have proper : Proper x := by
    refine ⟨(named x (by simp)).not_dot, ?_⟩
    rintro rfl
    subst at_
    exact absurd (free.symm.trans (FileTree.directory_dropLast folder)) nofun
  have spelt : (Path.ofNames p.IsAbsolute (names ++ [x])).place h.base = next ++ [x] := by
    rw [Path.place_ofNames named (by simp), List.foldl_append, FileTree.place_of_enter entered,
      List.foldl_cons, List.foldl_nil, FileTree.turn_of_proper proper]
  rw [FileTree.turn_of_proper proper] at at_
  subst at_
  have leaf : h.files.kind (next ++ [x]) ≠ some .directory := ne_of_eq_of_ne free nofun
  have changed := FileTree.kind_put sound.distinct folder leaf Node.bare_empty
  have there : (h.files.put (next ++ [x]) (.directory [])).kind (next ++ [x]) = some .directory := by
    rw [changed, Function.update_self]
    rfl
  have elsewhere (place : Place) (ne : place ≠ next ++ [x]) :
      (h.files.put (next ++ [x]) (.directory [])).kind place = h.files.kind place := by
    rw [changed, Function.update_of_ne ne]
  constructor
  case left =>
    refine ⟨rfl, FileTree.distinct_put sound.distinct Node.distinct_empty _, fun place => ?_⟩
    by_cases at_ : place = next ++ [x]
    · exact .inr ⟨at_ ▸ free, at_ ▸ there, _, List.mem_singleton_self _, spelt.trans at_.symm⟩
    · exact .inl (elsewhere place at_)
  case right =>
    refine ⟨next ++ [x], FileTree.enter_concat.mpr ⟨next, ?_, ?_⟩⟩
    · exact FileTree.enter_grown (fun place dir => (elsewhere place (fun eq => leaf (eq ▸ dir))).trans dir) entered
    · exact FileTree.into_eq_ok.mpr ⟨fits, FileTree.turn_of_proper proper, there⟩

-- The directory is made or was there before, unless those that hold it are missing.
theorem makeDirectory_of_open (opened : h.Open [.ofNames p.IsAbsolute (names ++ [x])])
    (entered : names.foldlM h.files.into (p.start h.base) = .ok place) :
    (∃ t, h.files.makeDirectory h.base (.ofNames p.IsAbsolute (names ++ [x])) = .ok t) ∨
      ((Disk.isDirectory (.ofNames p.IsAbsolute (names ++ [x])) : StateM Host Bool) h).1 = true := by
  have check := opened.check _ (List.mem_singleton_self _)
  have fits : Fits x := opened.fits _ (List.mem_singleton_self _) x (by
    rw [Path.names_ofNames named (by simp)]
    simp)
  have spelt : (Path.ofNames p.IsAbsolute (names ++ [x])).place h.base = FileTree.turn place x := by
    rw [Path.place_ofNames named (by simp), List.foldl_append, FileTree.place_of_enter entered]
    rfl
  have clear := opened.clear _ (List.mem_singleton_self _)
  rw [spelt] at clear
  rcases clear with free | there
  · exact .inl ⟨_, FileTree.makeDirectory_eq_ok.mpr
      ⟨_, (locate_way_eq_ok sound named).mpr ⟨check, place, entered, fits, rfl⟩, free, rfl⟩⟩
  · exact .inr ((isDirectory_way sound named).mpr
      ⟨check, _, FileTree.enter_concat.mpr ⟨place, entered, FileTree.into_eq_ok.mpr ⟨fits, rfl, there⟩⟩⟩)

theorem makeDirectory_of_lost (check : (Path.ofNames p.IsAbsolute (names ++ [x])).check = .ok ())
    (lost : names.foldlM h.files.into (p.start h.base) = .error .notFound) :
    h.files.makeDirectory h.base (.ofNames p.IsAbsolute (names ++ [x])) = .error .notFound := by
  refine FileTree.makeDirectory_of_error ?_
  rw [locate_way sound named, check, ok_bind, lost, error_bind]

theorem settle_failed {e : Fault}
    (failed : h.files.makeDirectory h.base (.ofNames p.IsAbsolute (names ++ [x])) = .error e) :
    ∃ r, (Disk.makeLineage.settle (.ofNames p.IsAbsolute (names ++ [x])) (.error e) : StateM Host _) h = (r, h) ∧
      (r = .ok () → ∃ place, (names ++ [x]).foldlM h.files.into (p.start h.base) = .ok place) ∧
      (h.Open [.ofNames p.IsAbsolute (names ++ [x])] →
        ∀ place, names.foldlM h.files.into (p.start h.base) = .ok place → r = .ok ()) := by
  refine ⟨_, Disk.settle_apply .., fun ok => ?_, fun opened place entered => if_pos ?_⟩
  case refine_1 =>
    split at ok
    case isTrue there => exact ((isDirectory_way sound named).mp there).2
    case isFalse => exact nomatch ok
  case refine_2 =>
    rcases makeDirectory_of_open sound named opened entered with ⟨t, made⟩ | directory
    · cases failed.symm.trans made
    · exact directory

end Step

variable {rev : List String} (named : ∀ y ∈ rev, IsName y)
include named

omit sound in
-- Where nothing is in the way, directories are there or missing.
theorem enter_of_open (opened : h.Open (Path.lineage.go p rev)) :
    (∃ place, rev.reverse.foldlM h.files.into (p.start h.base) = .ok place) ∨
      rev.reverse.foldlM h.files.into (p.start h.base) = .error .notFound := by
  induction rev with
  | nil => exact .inl ⟨_, rfl⟩
  | cons x above ih =>
    have among : ∀ y ∈ above.reverse ++ [x], IsName y := by simpa [or_comm] using named
    have ⟨_, fits, clear⟩ : h.Open [.ofNames p.IsAbsolute (above.reverse ++ [x])] :=
      opened.mono (by simp [Path.lineage.go])
    rw [List.reverse_cons, List.foldlM_append]
    rcases ih (fun y mem => named y (List.mem_cons_of_mem _ mem)) (opened.mono (List.subset_cons_self _ _)) with
      ⟨next, entered⟩ | missing
    case inr => exact .inr (by rw [missing, error_bind])
    case inl =>
      have clear := clear _ (List.mem_singleton_self _)
      rw [Path.place_ofNames among (by simp), List.foldl_append, FileTree.place_of_enter entered] at clear
      have fits : Fits x := fits _ (List.mem_singleton_self _) x (by simp [Path.names_ofNames among])
      rw [entered, ok_bind, List.foldlM_cons]
      simp only [List.foldlM_nil, bind_pure]
      rcases clear with missing | there
      · exact .inr (FileTree.into_eq_notFound fits missing)
      · exact .inl ⟨_, FileTree.into_eq_ok.mpr ⟨fits, rfl, there⟩⟩

theorem makeLineage_linkless :
    ∃ r h', (Disk.makeLineage (Path.lineage.go p rev) : StateM Host _) h = (r, h') ∧
      h.Adds (Path.lineage.go p rev) h' ∧
      (r = .ok () → ∃ place, rev.reverse.foldlM h'.files.into (p.start h.base) = .ok place) ∧
      (h.Open (Path.lineage.go p rev) → r = .ok ()) := by
  -- The last directory is tried first, and again once those that hold it are there.
  induction rev with
  | nil => exact ⟨.ok (), h, rfl, .refl sound, fun _ => ⟨_, rfl⟩, fun _ => rfl⟩
  | cons x above ih =>
    have among : ∀ y ∈ above.reverse ++ [x], IsName y := by simpa [or_comm] using named
    have named' : ∀ y ∈ above, IsName y := fun y mem => named y (List.mem_cons_of_mem _ mem)
    have last : [.ofNames p.IsAbsolute (above.reverse ++ [x])] ⊆ Path.lineage.go p (x :: above) :=
      by simp [Path.lineage.go]
    have before : Path.lineage.go p above ⊆ Path.lineage.go p (x :: above) := List.subset_cons_self _ _
    rw [List.reverse_cons]
    rcases makeDirectory_cases (.ofNames p.IsAbsolute (above.reverse ++ [x])) h with
      ⟨t, made, ran⟩ | ⟨e, failed, ran⟩
    case inl =>
      obtain ⟨adds, entered⟩ := makeDirectory_ok sound among made
      exact ⟨.ok (), _, Disk.makeLineage_of_ok ran, adds.mono last, fun _ => entered, fun _ => rfl⟩
    by_cases missing : e = .notFound
    case neg =>
      obtain ⟨r, settled, entered, complete⟩ := settle_failed sound among failed
      refine ⟨r, h, (Disk.makeLineage_of_error missing ran).trans settled, .refl sound, entered,
        fun opened => ?_⟩
      rcases enter_of_open named' (opened.mono before) with ⟨next, entered⟩ | lost
      · exact complete (opened.mono last) next entered
      · have check := opened.check _ (last (List.mem_singleton_self _))
        have lost := makeDirectory_of_lost sound among check lost
        exact absurd (Except.error.inj (failed.symm.trans lost)) missing
    case pos =>
      subst missing
      obtain ⟨r, h₁, ran₁, adds, entered, complete⟩ := ih named'
      have complete (opened : h.Open (Path.lineage.go p (x :: above))) := complete (opened.mono before)
      have adds := adds.mono before
      have sound₁ := adds.linkless sound
      have ran : (Disk.makeLineage (Path.lineage.go p (x :: above)) : StateM Host _) h = _ :=
        Disk.makeLineage_of_notFound ran
      rw [ran₁] at ran
      cases r with
      | error e =>
        refine ⟨_, h₁, ran, adds, fun ok => ?_, fun opened => ?_⟩
        · cases ok
        · cases complete opened
      | ok =>
        obtain ⟨next, entered⟩ := entered rfl
        rw [← adds.base] at entered ⊢
        rcases makeDirectory_cases (.ofNames p.IsAbsolute (above.reverse ++ [x])) h₁ with
          ⟨t, made, made₂⟩ | ⟨e, failed, failed₂⟩
        case inl =>
          obtain ⟨adds', entered⟩ := makeDirectory_ok sound₁ among made
          refine ⟨.ok (), _, ran.trans ?_, adds.trans (adds'.mono last), fun _ => entered, fun _ => rfl⟩
          simp only [made₂]
          rfl
        case inr =>
          obtain ⟨r, settled, entered', complete'⟩ := settle_failed sound₁ among failed
          refine ⟨r, h₁, ran.trans ?_, adds, entered', fun opened => ?_⟩
          · simp only [failed₂, settled]
          · exact complete' ((opened.adds adds).mono last) next entered

omit named in
theorem makeDirectories_linkless (p : Path) :
    ∃ r h', (Disk.makeDirectories p : StateM Host _) h = (r, h') ∧ h.Adds p.lineage h' ∧
      (r = .ok () → ∃ place, p.names.foldlM h'.files.into (p.start h.base) = .ok place) ∧
      (h.Open p.lineage → r = .ok ()) := by
  have named : ∀ y ∈ p.names.reverse, IsName y := fun y mem =>
    Path.isName_of_mem_names (List.mem_reverse.mp mem)
  have spec := makeLineage_linkless (p := p) sound named
  rw [List.reverse_reverse] at spec
  exact spec

end Lineage

namespace Path

variable {p q : Path} {base : Place} {rev names : List String} {x : String}

theorem mem_lineage (mem : q ∈ p.lineage) :
    ∃ front, front ≠ [] ∧ front <+: p.names ∧ q = ofNames p.IsAbsolute front := by
  have go (rev : List String) (mem : q ∈ lineage.go p rev) :
      ∃ front, front ≠ [] ∧ front <+: rev.reverse ∧ q = ofNames p.IsAbsolute front := by
    induction rev with
    | nil => exact nomatch mem
    | cons x above ih =>
      rw [List.reverse_cons]
      rcases List.mem_cons.mp mem with rfl | mem
      · exact ⟨_, by simp, List.prefix_refl _, rfl⟩
      · have ⟨front, ne, pre, eq⟩ := ih mem
        exact ⟨front, ne, pre.trans (List.prefix_append ..), eq⟩
  simpa using go _ mem

theorem foldl_turn {here : Place} (proper : ∀ x ∈ names, Proper x) :
    names.foldl FileTree.turn here = here ++ names := by
  induction names generalizing here with
  | nil => simp
  | cons x names ih =>
    rw [List.foldl_cons, FileTree.turn_of_proper (proper x List.mem_cons_self),
      ih fun y mem => proper y (List.mem_cons_of_mem _ mem)]
    simp

-- Without steps back, what a directory holds is not on the way to it.
theorem place_ne_entry (mem : q ∈ p.lineage) (straight : ".." ∉ p.names) :
    q.place base ≠ p.place base ++ [x] := by
  have ⟨front, ne, pre, eq⟩ := mem_lineage mem
  have named : ∀ y ∈ p.names, IsName y := fun y mem => isName_of_mem_names mem
  have proper : ∀ y ∈ p.names, Proper y := fun y mem =>
    ⟨(named y mem).not_dot, ne_of_mem_of_not_mem mem straight⟩
  rw [eq, place_ofNames (fun y mem => named y (pre.subset mem)) ne, place, foldl_turn proper,
    foldl_turn fun y mem => proper y (pre.subset mem), List.append_assoc]
  intro same
  have longer := congrArg List.length (List.append_cancel_left same)
  rw [List.length_append, List.length_singleton] at longer
  have shorter := pre.length_le
  omega

end Path

end AirRelease
