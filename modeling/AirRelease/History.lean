import AirRelease.FirstMatch
import AirRelease.Package

namespace AirRelease

@[ext]
structure History where
  packages : List Package
deriving DecidableEq

inductive HistoryError
  | corrupt (label : Label)
  | notFound (label : Label)
deriving DecidableEq

def HistoryError.message : HistoryError → String
  | .corrupt label => s!"history is corrupt: cannot parse label '{label.text}'"
  | .notFound label => s!"release {label.text} not found in history"

namespace History

def empty : History :=
  ⟨[]⟩

instance : Inhabited History :=
  ⟨empty⟩

def length (h : History) : Nat :=
  h.packages.length

def latest (h : History) : Option Package :=
  h.packages.getLast?

-- The package before the latest one.
def previous (h : History) : Option Package :=
  h.packages.dropLast.getLast?

def find (h : History) (l : Label) : Option Package :=
  h.packages.find? (·.label = l)

def latestFor (h : History) (v : VersionRange) : Option Package :=
  h.packages.reverse.find? (·.version = v)

def latestEnabled (h : History) : Option Package :=
  h.packages.reverse.find? (!·.disabled)

def nextLabel (h : History) : Except HistoryError Label :=
  match h.latest with
  | none => .ok Label.first
  | some p => p.label.next.mapError fun _ => .corrupt p.label

def append (h : History) (c : Candidate) : Except HistoryError (Package × History) := do
  let l ← h.nextLabel
  return (c.labelled l, ⟨h.packages ++ [c.labelled l]⟩)

theorem append_eq_ok {h h' : History} {c : Candidate} {p : Package}
    (ha : h.append c = .ok (p, h')) :
    h.nextLabel = .ok p.label ∧ p.toCandidate = c ∧ h'.packages = h.packages ++ [p] := by
  unfold append at ha
  cases hl : h.nextLabel with
  | error e => simp [hl, bind, Except.bind] at ha
  | ok l =>
    simp only [hl, bind, Except.bind, pure, Except.pure, Except.ok.injEq, Prod.mk.injEq] at ha
    obtain ⟨rfl, rfl⟩ := ha
    exact ⟨rfl, rfl, rfl⟩

-- Puts a package in the place of the first one with the given label. The label stays.
def replace (h : History) (l : Label) (p : Package) : Except HistoryError History :=
  match h.find l with
  | none => .error (.notFound l)
  | some _ => .ok ⟨changeFirst (·.label = l) (fun _ => { p with label := l }) h.packages⟩

theorem length_replace {h h' : History} {l : Label} {p : Package} (hr : h.replace l p = .ok h') :
    h'.length = h.length := by
  unfold replace at hr
  split at hr
  · cases hr
  · cases hr; exact length_changeFirst ..

end History
end AirRelease
