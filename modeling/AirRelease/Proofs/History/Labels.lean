import AirRelease.Proofs.History.Step
import AirRelease.Proofs.Label

namespace AirRelease

-- An enabled and complete release for all versions.
def Package.plain (label : String) : Package where
  version := ⟨"*", by decide, by decide⟩
  hash := ""
  size := 1
  uploadTime := 0
  description := none
  disabled := false
  mandatory := false
  rollout := .full
  method := .upload
  label := ⟨label⟩

namespace History

variable {h h' : History} {p : Package} {l : Label} {c : Call}

def labels (h : History) : List Label :=
  h.packages.map (·.label)

-- Every label has a number, and the numbers strictly increase from oldest to newest.
structure WellLabelled (h : History) : Prop where
  numbered : ∀ l ∈ h.labels, ∃ n, l.number = .ok n
  increasing : h.labels.Pairwise fun l k => ∀ m n, l.number = .ok m → k.number = .ok n → m < n

-- The number of the last label, or 0 if there is none.
def lastNumber (h : History) : Nat :=
  match h.latest with
  | none => 0
  | some p => p.label.number.toOption.getD 0

theorem wellLabelled_empty : empty.WellLabelled :=
  ⟨by simp [labels, empty], .nil⟩

theorem eq_empty_or_concat (h : History) :
    (h.latest = none ∧ h = empty) ∨ ∃ ps p, h.latest = some p ∧ h.packages = ps ++ [p] := by
  rcases List.eq_nil_or_concat h.packages with nil | ⟨ps, p, eq⟩
  case inl => exact .inl ⟨by simp [latest, nil], History.ext nil⟩
  case inr =>
    rw [List.concat_eq_append] at eq
    exact .inr ⟨ps, p, by simp [latest, eq], eq⟩

theorem nextLabel_eq_ok :
    h.nextLabel = .ok l ↔
      (h.latest = none ∧ Label.first = l) ∨ ∃ p, h.latest = some p ∧ p.label.next = .ok l := by
  unfold nextLabel
  cases h.latest <;> simp

theorem number_nextLabel (ok : h.nextLabel = .ok l) : l.number = .ok (h.lastNumber + 1) := by
  rcases nextLabel_eq_ok.mp ok with ⟨latest, rfl⟩ | ⟨p, latest, next⟩
  case inl => simp [lastNumber, latest, Label.number_first]
  case inr =>
    have ⟨n, number, lt, eq⟩ := Label.next_eq_ok.mp next
    rw [← eq, Label.number_ofNumber (by omega) (by omega)]
    simp [lastNumber, latest, number, Except.toOption]

namespace WellLabelled

theorem nodup (wl : h.WellLabelled) : h.labels.Nodup := by
  refine wl.increasing.imp_of_mem fun mem _ lt eq => ?_
  have ⟨n, number⟩ := wl.numbered _ mem
  exact Nat.lt_irrefl n (lt n n number (eq ▸ number))

theorem le_lastNumber (wl : h.WellLabelled) (mem : l ∈ h.labels) {n : Nat}
    (number : l.number = .ok n) : n ≤ h.lastNumber := by
  rcases h.eq_empty_or_concat with ⟨_, rfl⟩ | ⟨ps, p, latest, eq⟩
  case inl => simp [labels, empty] at mem
  case inr =>
    have labels_eq : h.labels = ps.map (·.label) ++ [p.label] := by simp [labels, eq]
    have ⟨m, last⟩ := wl.numbered p.label (by simp [labels_eq])
    have lastNumber_eq : h.lastNumber = m := by simp [lastNumber, latest, last, Except.toOption]
    have increasing := labels_eq ▸ wl.increasing
    rw [labels_eq, List.mem_append, List.mem_singleton] at mem
    cases mem
    case inl mem =>
      have lt := (List.pairwise_append.mp increasing).2.2 l mem p.label (by simp) n m number last
      omega
    case inr self =>
      have := Except.ok.inj (number.symm.trans (self ▸ last))
      omega

theorem fresh (wl : h.WellLabelled) (ok : h.nextLabel = .ok l) : l ∉ h.labels := by
  intro mem
  have := wl.le_lastNumber mem (number_nextLabel ok)
  omega

theorem append (wl : h.WellLabelled) (appends : h.Appends p h') : h'.WellLabelled := by
  have number := number_nextLabel appends.label
  have labels_eq : h'.labels = h.labels ++ [p.label] := by simp [labels, appends.packages]
  constructor
  case numbered =>
    intro l mem
    rw [labels_eq, List.mem_append, List.mem_singleton] at mem
    cases mem
    case inl mem => exact wl.numbered l mem
    case inr self => exact self ▸ ⟨_, number⟩
  case increasing =>
    rw [labels_eq]
    refine List.pairwise_append.mpr ⟨wl.increasing, List.pairwise_singleton .., ?_⟩
    intro l mem k self m n hm hn
    have le := wl.le_lastNumber mem hm
    have := Except.ok.inj (number.symm.trans (List.mem_singleton.mp self ▸ hn))
    omega

end WellLabelled

theorem labels_replace (ok : h.replace l p = .ok h') : h'.labels = h.labels := by
  rw [(replace_eq_ok.mp ok).2]
  refine map_changeFirst (fun q same => ?_) _
  exact (decide_eq_true_eq.mp same).symm

theorem Step.wellLabelled (wl : h.WellLabelled) (s : Step h c h') : h'.WellLabelled := by
  cases s
  case release offered | promote offered =>
    cases offered
    case skipped => exact wl
    case released appends => exact wl.append appends
  case patch replaced =>
    have eq := labels_replace replaced
    exact ⟨eq ▸ wl.numbered, eq ▸ wl.increasing⟩
  case rollback appends => exact wl.append appends
  case clear => exact wellLabelled_empty

theorem after_wellLabelled (wl : h.WellLabelled) (c : Call) : (h.after c).WellLabelled := by
  cases h.after_eq_or_step c
  case inl same => rwa [same]
  case inr s => exact s.wellLabelled wl

theorem run_wellLabelled (wl : h.WellLabelled) (calls : List Call) : (h.run calls).WellLabelled :=
  List.foldlRecOn calls after wl fun _ wl c _ => after_wellLabelled wl c

theorem Appends.latest (appends : h.Appends p h') : h'.latest = some p := by
  rw [History.latest, appends.packages, List.getLast?_concat]

theorem Appends.eq_of_getElem? {q : Package} {i : Nat} (appends : h.Appends p h')
    (le : h.length ≤ i) (at_i : h'.packages[i]? = some q) : q = p := by
  rw [appends.packages, List.getElem?_append_right le] at at_i
  exact List.mem_singleton.mp (List.mem_of_getElem? at_i)

theorem find_of_getElem? (nodup : h.labels.Nodup) {i : Nat} (at_i : h.packages[i]? = some p) :
    h.find p.label = some p := by
  have ⟨lt, eq⟩ := List.getElem?_eq_some_iff.mp at_i
  refine List.find?_eq_some_iff_getElem.mpr ⟨by simp, i, lt, eq, ?_⟩
  intro j before
  have lt_i : i < h.labels.length := by simpa [labels] using lt
  have ne := List.pairwise_iff_getElem.mp nodup j i (Nat.lt_trans before lt_i) lt_i before
  simpa [labels, eq] using ne

theorem find_eq_none_iff : h.find l = none ↔ l ∉ h.labels := by
  simp [find, labels]

-- Only appending makes a history longer.
theorem Step.appends (s : Step h c h') {i : Nat} (le : h.length ≤ i)
    (at_i : h'.packages[i]? = some p) : h.Appends p h' := by
  have longer : h.length < h'.length := Nat.lt_of_le_of_lt le (List.getElem?_eq_some_iff.mp at_i).1
  cases s
  case release offered | promote offered =>
    cases offered
    case skipped => exact absurd longer (Nat.lt_irrefl _)
    case released appends => exact appends.eq_of_getElem? le at_i ▸ appends
  case patch replaced => exact absurd (length_replace replaced) (Nat.ne_of_gt longer)
  case rollback appends => exact appends.eq_of_getElem? le at_i ▸ appends
  case clear => exact absurd longer (Nat.not_lt_zero _)

-- The labels count from one without a gap.
def Contiguous (h : History) : Prop :=
  h.labels = (List.range' 1 h.length).map Label.ofNumber

theorem contiguous_empty : empty.Contiguous :=
  rfl

namespace Contiguous

theorem nodup (cg : h.Contiguous) : h.labels.Nodup := by
  rw [Contiguous] at cg
  rw [cg]
  exact List.Pairwise.map _ (fun _ _ ne same => ne (Label.ofNumber_inj.mp same)) (List.nodup_range' 1)

theorem label_latest (cg : h.Contiguous) (latest : h.latest = some p) :
    p.label = Label.ofNumber h.length := by
  have ⟨ps, eq⟩ := List.getLast?_eq_some_iff.mp latest
  have length : h.length = ps.length + 1 := by simp [History.length, eq]
  have last := congrArg List.getLast? cg
  simpa [labels, eq, length, List.range'_1_concat, Nat.add_comm] using last

theorem label_of_nextLabel (cg : h.Contiguous) (ok : h.nextLabel = .ok l) :
    l = Label.ofNumber (h.length + 1) := by
  rcases h.eq_empty_or_concat with ⟨_, rfl⟩ | ⟨ps, p, latest, eq⟩
  case inl => exact (Except.ok.inj ok).symm
  case inr =>
    simp only [nextLabel_eq_ok, latest, reduceCtorEq, false_and, false_or, Option.some.injEq,
      exists_eq_left', Label.next_eq_ok, cg.label_latest latest, Label.number_ofNumber_eq_ok] at ok
    obtain ⟨n, ⟨rfl, _⟩, _, rfl⟩ := ok
    rfl

theorem nextLabel (cg : h.Contiguous) (fits : h.length < Label.maxNumber) :
    h.nextLabel = .ok ⟨"v" ++ (h.length + 1).repr⟩ := by
  rw [← Label.ofNumber_eq]
  cases h.eq_empty_or_concat
  case inl empty =>
    have ⟨_, eq⟩ := empty
    rw [eq]
    rfl
  case inr concat =>
    have ⟨ps, p, latest, eq⟩ := concat
    have pos : 0 < h.length := by simp [length, eq]
    have number := cg.label_latest latest ▸ Label.number_ofNumber pos (Nat.le_of_lt fits)
    exact nextLabel_eq_ok.mpr (.inr ⟨p, latest, Label.next_of_number number fits⟩)

theorem append (cg : h.Contiguous) (appends : h.Appends p h') : h'.Contiguous := by
  have length : h'.length = h.length + 1 := by simp [History.length, appends.packages]
  calc
    h'.labels = h.labels ++ [p.label] := by simp [labels, appends.packages]
    _ = (List.range' 1 h.length).map Label.ofNumber ++ [Label.ofNumber (h.length + 1)] := by
      rw [cg.label_of_nextLabel appends.label, cg]
    _ = (List.range' 1 h'.length).map Label.ofNumber := by
      rw [length, List.range'_1_concat, List.map_append, List.map_singleton, Nat.add_comm 1]

theorem label_getElem (cg : h.Contiguous) {i : Nat} (lt : i < h.packages.length) :
    (h.packages[i]).label = ⟨"v" ++ (i + 1).repr⟩ := by
  have at_i := congrArg (·[i]?) cg
  simp only [labels, History.length, List.getElem?_map, List.getElem?_range' lt,
    List.getElem?_eq_getElem lt, Option.map_some, Option.some.injEq, Nat.one_mul] at at_i
  rw [at_i, ← Label.text_ofNumber, Nat.add_comm]

theorem label_eq (cg : h.Contiguous) {i : Nat} (at_i : h.packages[i]? = some p) :
    p.label = Label.ofNumber (i + 1) := by
  have ⟨lt, eq⟩ := List.getElem?_eq_some_iff.mp at_i
  rw [← eq, cg.label_getElem lt, Label.ofNumber_eq]

theorem texts (cg : h.Contiguous) :
    h.labels.map (·.text) = (List.range' 1 h.length).map ("v" ++ ·.repr) := by
  rw [cg, List.map_map]
  exact List.map_congr_left fun k _ => Label.text_ofNumber k

theorem find_eq (cg : h.Contiguous) {i : Nat} (at_i : h.packages[i]? = some p) :
    h.find ⟨"v" ++ (i + 1).repr⟩ = some p := by
  rw [← Label.ofNumber_eq, ← cg.label_eq at_i]
  exact find_of_getElem? cg.nodup at_i

theorem find_eq_none (cg : h.Contiguous)
    (ne : ∀ i < h.packages.length, l.text ≠ "v" ++ (i + 1).repr) : h.find l = none := by
  refine find_eq_none_iff.mpr fun mem => ?_
  have ⟨p, mem, eq⟩ := List.mem_map.mp mem
  have ⟨i, lt, at_i⟩ := List.getElem_of_mem mem
  apply ne i lt
  rw [← eq, ← at_i, cg.label_getElem lt]

end Contiguous

theorem Step.contiguous (cg : h.Contiguous) (s : Step h c h') : h'.Contiguous := by
  cases s
  case release offered | promote offered =>
    cases offered
    case skipped => exact cg
    case released appends => exact cg.append appends
  case patch replaced => rw [Contiguous, labels_replace replaced, length_replace replaced, cg]
  case rollback appends => exact cg.append appends
  case clear => exact contiguous_empty

theorem run_contiguous (calls : List Call) : (empty.run calls).Contiguous := by
  refine List.foldlRecOn calls after contiguous_empty fun h cg c _ => ?_
  cases h.after_eq_or_step c
  case inl same => rwa [same]
  case inr s => exact s.contiguous cg

theorem after_appends {i : Nat} (le : h.length ≤ i) (at_i : (h.after c).packages[i]? = some p) :
    h.Appends p (h.after c) := by
  cases h.after_eq_or_step c
  case inl same =>
    have lt := (List.getElem?_eq_some_iff.mp (same ▸ at_i)).1
    exact absurd lt (Nat.not_lt.mpr le)
  case inr s => exact s.appends le at_i

theorem labels_of_run :
    (∀ h : History, h.WellLabelled → ∀ calls, (h.run calls).WellLabelled ∧
      ∀ c i p, (h.run calls).length ≤ i → ((h.run calls).after c).packages[i]? = some p →
        p.label.number = .ok ((h.run calls).lastNumber + 1) ∧ p.label ∉ (h.run calls).labels) ∧
    ∀ calls, let h := empty.run calls
      h.labels.map (·.text) = (List.range' 1 h.length).map ("v" ++ ·.repr) ∧
      (∀ i (lt : i < h.packages.length), h.find ⟨"v" ++ (i + 1).repr⟩ = some h.packages[i]) ∧
      ∀ l : Label, (∀ i < h.packages.length, l.text ≠ "v" ++ (i + 1).repr) → h.find l = none := by
  constructor
  case left =>
    intro h wl calls
    have wl := run_wellLabelled wl calls
    refine ⟨wl, fun c i p le at_i => ?_⟩
    have label := (after_appends le at_i).label
    exact ⟨number_nextLabel label, wl.fresh label⟩
  case right =>
    intro calls h
    have cg : h.Contiguous := run_contiguous calls
    have nodup := (run_wellLabelled wellLabelled_empty calls).nodup
    refine ⟨cg.texts, fun i lt => ?_, fun l ne => cg.find_eq_none ne⟩
    rw [← cg.label_getElem lt]
    exact find_of_getElem? nodup (List.getElem?_eq_getElem lt)

-- A loaded history need not start with v1, and its labels may have leading zeros.
def loaded : History :=
  ⟨[.plain "v3", .plain "v007"]⟩

theorem wellLabelled_loaded : loaded.WellLabelled := by
  have three : Label.number ⟨"v3"⟩ = .ok 3 := rfl
  have seven : Label.number ⟨"v007"⟩ = .ok 7 := rfl
  constructor <;> simp [loaded, labels, Package.plain, three, seven]

theorem labels_of_run_loaded :
    let c : Call := .rollback ⟨"Staging", by decide⟩ none
    loaded.WellLabelled ∧ (loaded.run [c]).WellLabelled ∧
      ∃ p, (loaded.after c).packages[2]? = some p ∧ p.label.number = .ok 8 ∧
        p.label ∉ loaded.labels := by
  intro c
  have spec := labels_of_run.1 loaded wellLabelled_loaded
  exact ⟨wellLabelled_loaded, (spec [c]).1, _, rfl, (spec []).2 c 2 _ (by decide) rfl⟩

end History
end AirRelease
