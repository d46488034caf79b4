import AirRelease.Proofs.Bundle.Content
import AirRelease.Proofs.History.Origin
import AirRelease.Proofs.Service.Isolation

namespace AirRelease

-- The content has been read from some path of some computer, whatever is there.
def Request.Loaded : Request → Prop
  | .release _ _ content _ _ => ∃ (path : Path) (h : Host), ((Bundle.load path : StateM Host _) h).1 = content
  | _ => True

structure Package.WellFormed (p : Package) : Prop where
  size    : 1 ≤ p.size
  hash    : Sha256.Spelt p.hash
  rollout : 1 ≤ p.rollout.percent ∧ p.rollout.percent ≤ 100
  version : VersionRange.ofText p.version.text = .ok p.version

-- Only the content can be at fault.
theorem Package.WellFormed.of_content {p : Package} (size : 1 ≤ p.size) (hash : Sha256.Spelt p.hash) :
    p.WellFormed where
  size := size
  hash := hash
  rollout := ⟨p.rollout.pos, p.rollout.le⟩
  version := p.version.ofText_text

theorem Package.WellFormed.of_resembles {p q : Package} (formed : q.WellFormed) (same : p.Resembles q) :
    p.WellFormed :=
  .of_content (same.size ▸ formed.size) (same.hash ▸ formed.hash)

namespace Turn

-- The turn appends the package to the history.
def Adds (turn : Turn) (s : Memory) (key : AccessKey) (p : Package) : Prop :=
  ((turn.onMemory s).2.history key).packages = (s.history key).packages ++ [p]

-- One of the turns appends the package as an upload.
def Uploads (turns : List Turn) (p : Package) : Prop :=
  ∃ done turn key, done ++ [turn] <+: turns ∧ turn.Adds (memoryAfter done) key p ∧ p.method = .upload

-- One of the turns has appended the package, which may have been patched since. It is an upload, or
-- something that had been uploaded by then has the same content.
def Traces (turns : List Turn) (key : AccessKey) (p : Package) : Prop :=
  ∃ done turn q, done ++ [turn] <+: turns ∧ turn.Adds (memoryAfter done) key q ∧ q.Kept p ∧
    (q.method = .upload ∨ ∃ u, Uploads done u ∧ q.Resembles u)

-- Where a package comes from that a turn leaves.
inductive Origin (turn : Turn) (s : Memory) (key : AccessKey) (p : Package) : Prop
  | old (there : q ∈ (s.history key).packages) (kept : q.Kept p)
  | upload (adds : turn.Adds s key p) (method : p.method = .upload) (formed : p.WellFormed)
  | copy (adds : turn.Adds s key p) (there : q ∈ (s.history source).packages) (same : p.Resembles q)

section Step

variable {turn : Turn} {s : Memory} {key : AccessKey} {p : Package} {d : Deployment} {c : History.Call}

theorem origin_of_asks (loaded : turn.request.Loaded) (asks : turn.Asks s d c) (adds : turn.Adds s d.key p)
    (supplies : (s.history d.key).Supplies c p) : turn.Origin s d.key p := by
  cases asks
  case release request _ _ =>
    rw [request] at loaded
    obtain ⟨path, h, ok⟩ := loaded
    have sound := Bundle.sound_of_load ok
    cases supplies with
    | upload method hash size =>
      exact .upload adds method (.of_content (size ▸ sound.size) (hash ▸ sound.hash))
  case promote =>
    cases supplies with
    | promote there same => exact .copy adds there same
  case rollback =>
    cases supplies with
    | rollback there same => exact .copy adds there same
  case clear | patch => cases supplies

theorem origin_of_turn (idle : s.held = []) (loaded : turn.request.Loaded)
    (mem : p ∈ ((turn.onMemory s).2.history key).packages) : turn.Origin s key p := by
  have after : (turn.onMemory s).2 = turn.effect s := state_onMemory idle
  rw [after] at mem
  rcases effect_cases turn s with ⟨c, _, _, eq⟩ | ⟨_, ⟨d, c, asks, _, eq⟩ | ⟨_, eq⟩⟩
  case inl =>
    rw [eq] at mem
    have there : p ∈ ((s.afterCall c).history key).packages := Memory.mem_history_of_eraseHistories mem
    exact .old there (.refl p)
  case inr.inl =>
    rw [eq] at mem
    by_cases same : key = d.key
    case neg =>
      rw [Memory.history_keepHistory_of_ne same] at mem
      exact .old mem (.refl p)
    case pos =>
      subst same
      rw [Memory.history_keepHistory_self] at mem
      rcases (s.history d.key).after_eq_or_step c with nothing | step
      · exact .old (nothing ▸ mem) (.refl p)
      · cases step.origin mem with
        | old there kept => exact .old there kept
        | new packages supplies =>
          have adds : turn.Adds s d.key p := by rwa [Adds, after, eq, Memory.history_keepHistory_self]
          exact origin_of_asks loaded (asks_of_historyCall? asks) adds supplies
  case inr.inr => exact .old (eq ▸ mem) (.refl p)

end Step

section Run

variable {turns done : List Turn} {turn : Turn} {key : AccessKey} {p q : Package}

theorem Uploads.mono (uploads : Uploads done p) (pre : done <+: turns) : Uploads turns p := by
  obtain ⟨before, turn, key, among, adds⟩ := uploads
  exact ⟨before, turn, key, among.trans pre, adds⟩

theorem Traces.mono (traces : Traces done key p) (pre : done <+: turns) : Traces turns key p := by
  obtain ⟨before, turn, q, among, adds⟩ := traces
  exact ⟨before, turn, q, among.trans pre, adds⟩

theorem Traces.of_kept (traces : Traces turns key p) (kept : p.Kept q) : Traces turns key q := by
  obtain ⟨before, turn, first, among, adds, since, origin⟩ := traces
  exact ⟨before, turn, first, among, adds, since.trans kept, origin⟩

-- Following a trace ends at an upload.
theorem Traces.uploads (traces : Traces turns key p) : ∃ u, Uploads turns u ∧ p.Resembles u := by
  obtain ⟨before, turn, q, among, adds, kept, method | ⟨u, uploads, same⟩⟩ := traces
  · exact ⟨q, ⟨before, turn, key, among, adds, method⟩, .of_kept kept⟩
  · exact ⟨u, uploads.mono ((List.prefix_append ..).trans among), .trans (.of_kept kept) same⟩

-- By induction on the turns. A package may come from any history, so that the statement is about all.
theorem traces_of_turns (loaded : ∀ turn ∈ turns, turn.request.Loaded) :
    ∀ key, ∀ p ∈ ((memoryAfter turns).history key).packages, p.WellFormed ∧ Traces turns key p := by
  induction turns using List.reverseRecOn with
  | nil => exact fun key p mem => nomatch mem
  | append_singleton done turn ih =>
    obtain ⟨loaded, now⟩ := List.forall_mem_append.mp loaded
    intro key p mem
    rw [memoryAfter_concat] at mem
    have pre : done <+: done ++ [turn] := List.prefix_append ..
    cases origin_of_turn (idle_after done) (now turn List.mem_cons_self) mem with
    | old there kept =>
      obtain ⟨formed, traces⟩ := ih loaded key _ there
      exact ⟨formed.of_resembles (.of_kept kept), (traces.mono pre).of_kept kept⟩
    | upload adds method formed =>
      exact ⟨formed, done, turn, p, List.prefix_rfl, adds, .refl p, .inl method⟩
    | copy adds there same =>
      obtain ⟨formed, traces⟩ := ih loaded _ _ there
      obtain ⟨u, uploads, same'⟩ := traces.uploads
      exact ⟨formed.of_resembles same, done, turn, p, List.prefix_rfl, adds, .refl p,
        .inr ⟨u, uploads, same.trans same'⟩⟩

end Run

end Turn

-- The turns are taken one after another, in memory or in a directory which is not there yet. What counts
-- is what has been appended by then, whether it is still in a store or not.
theorem Turn.provenance_of_turns (turns : List Turn) (loaded : ∀ turn ∈ turns, turn.request.Loaded) :
    (∀ key, ∀ p ∈ ((memoryAfter turns).history key).packages, p.WellFormed ∧ Traces turns key p) ∧
    ∀ (a : Approach) (h : Host), a.On h → a.Absent h.files →
      (∀ turn ∈ turns, turn.Suits a.root (turns.flatMap newKeys)) →
      ∀ done, done <+: turns → ∀ d : Directory, d.root = a.root → '/' ∉ d.mark.toList →
        ∀ key, d.Lockable (.history key) →
          (d.onHost.loadHistory key (hostAfter a.root h done)).1 = .ok ((memoryAfter done).history key) := by
  refine ⟨traces_of_turns loaded, fun a h on absent suits done pre d root whole key lockable => ?_⟩
  have same : a.Matches (· ∈ turns.flatMap newKeys) none (memoryAfter done) (hostAfter a.root h done) :=
    matches_after on absent (fun turn mem => suits turn (pre.subset mem))
      fun turn mem k new => List.mem_flatMap.mpr ⟨turn, pre.subset mem, new⟩
  rw [Directory.loadHistory_of_mirrors root whole same.on same.mirrors lockable (same.histories key)]

def hostWithUpdate : Host :=
  { bare with files := ⟨[("update.js", .file ⟨#[0x31]⟩)]⟩ }

def updateContent : Except BundleError Bundle :=
  ((Bundle.load ⟨"update.js"⟩ : StateM Host _) hostWithUpdate).1

-- Ann promotes an upload, and clears the history that it was made to.
def promotingTurns : List Turn := [
  turnOfAnn ⟨"k1"⟩ (.addApp "App"),
  turnOfAnn ⟨"k2"⟩ (.addDeployment "App" "Beta"),
  turnOfAnn ⟨"k3"⟩ (.release "App" "Production" updateContent "1.0.0" {}),
  turnOfAnn ⟨"k3"⟩ (.promote "App" "Production" "Beta" {}),
  turnOfAnn ⟨"k3"⟩ (.clearHistory "App" "Production")]

theorem suits_promotingTurns :
    ∀ turn ∈ promotingTurns, turn.Suits toNewData.root (promotingTurns.flatMap Turn.newKeys) := by
  have new : promotingTurns.flatMap Turn.newKeys ⊆ [⟨"k1"⟩, ⟨"k2"⟩, ⟨"k3"⟩] := by decide
  simp only [promotingTurns, List.forall_mem_cons]
  refine ⟨?_, ?_, ?_, ?_, ?_, List.forall_mem_nil _⟩
  all_goals exact (suits_turnOfAnn (by decide +kernel)).mono new

theorem Turn.provenance_of_turns_promoting :
    (∀ turn ∈ promotingTurns, turn.request.Loaded) ∧
    ((memoryAfter promotingTurns).history ⟨"k1"⟩).packages = [] ∧
    (∃ p, ((memoryAfter promotingTurns).history ⟨"k2"⟩).packages = [p] ∧ p.method = .promote ∧
      p.WellFormed ∧ Traces promotingTurns ⟨"k2"⟩ p) ∧
    (dataOfAnn.onHost.loadHistory ⟨"k2"⟩ (hostAfter toNewData.root bare promotingTurns)).1 =
      .ok ((memoryAfter promotingTurns).history ⟨"k2"⟩) := by
  have loaded : ∀ turn ∈ promotingTurns, turn.request.Loaded := by
    simp only [promotingTurns, List.forall_mem_cons]
    exact ⟨trivial, trivial, ⟨_, hostWithUpdate, rfl⟩, trivial, trivial, List.forall_mem_nil _⟩
  have methods : ((memoryAfter promotingTurns).history ⟨"k2"⟩).packages.map (·.method) = [.promote] := by
    decide +kernel
  obtain ⟨p, only, method⟩ := List.map_eq_singleton_iff.mp methods
  obtain ⟨memory, inDirectory⟩ := provenance_of_turns promotingTurns loaded
  have kept := inDirectory toNewData bare on_bare absent_bare suits_promotingTurns _ List.prefix_rfl dataOfAnn
    rfl (by decide) _ (lockable_dataOfAnn ⟨"k2"⟩ (by decide))
  exact ⟨loaded, by decide +kernel, ⟨p, only, method, memory _ p (by simp [only])⟩, kept⟩

end AirRelease
