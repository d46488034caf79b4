import AirRelease.Proofs.Directory.Faithful
import AirRelease.Proofs.Service.Agree

namespace AirRelease

open FileTree (Fits)

-- The directory and the memory hold the same, of a kind that can be stored.
structure Approach.Matches (a : Approach) (Good : AccessKey → Prop) (held : Option LockTarget) (s : Memory)
    (h : Host) : Prop where
  on : a.On h
  mirrors : a.Mirrors s h.files.kind
  held : s.held = held.toList
  apps : s.apps.Sound Good
  histories : ∀ key, (s.history key).Storable

namespace Directory

variable {a : Approach} {d : Directory} {Good : AccessKey → Prop}

theorem lockable_of_good {target : LockTarget} (good : target.Good Good) (lockable : d.Lockable .registry)
    (usable : ∀ key, Good key → d.Lockable (.history key)) : d.Lockable target := by
  cases target with
  | registry => exact lockable
  | history key => exact usable key good

theorem alike (root : d.root = a.root) (whole : '/' ∉ d.mark.toList) (lockable : d.Lockable .registry)
    (usable : ∀ key, Good key → d.Lockable (.history key)) :
    Memory.store.Alike d.onHost Good (a.Matches Good) where
  loadApps held s h same := by
    have loaded := loadApps_of_mirrors root whole same.on same.mirrors lockable same.apps.storable
    exact ⟨.ok s.apps, s, h, rfl, loaded, fun _ eq => Except.ok.inj eq ▸ same.apps, same⟩
  saveApps held sound s h same := by
    obtain ⟨h', saved, on, mirrors⟩ := saveApps_of_mirrors root whole same.on same.mirrors lockable _
    exact ⟨.ok (), _, h', rfl, saved, fun _ _ => trivial, on, mirrors, same.held, sound, same.histories⟩
  loadHistory {key} held good s h same := by
    have storable := same.histories key
    have loaded := loadHistory_of_mirrors root whole same.on same.mirrors (usable key good) storable
    exact ⟨.ok (s.history key), s, h, rfl, loaded, fun _ eq => Except.ok.inj eq ▸ storable, same⟩
  saveHistory {key history} held good storable s h same := by
    obtain ⟨h', saved, on, mirrors⟩ :=
      saveHistory_of_mirrors root whole same.on same.mirrors (usable key good) history
    refine ⟨.ok (), _, h', rfl, saved, fun _ _ => trivial, on, mirrors, same.held, same.apps, fun other => ?_⟩
    by_cases eq : other = key
    case pos => rwa [eq, Memory.history_setHistory_self]
    case neg => exact Memory.history_setHistory_of_ne s eq _ ▸ same.histories other
  deleteHistory {key} held good s h same := by
    obtain ⟨h', deleted, on, mirrors⟩ :=
      deleteHistory_of_mirrors root whole same.on same.mirrors (usable key good)
    refine ⟨.ok (), _, h', rfl, deleted, trivial, on, mirrors, same.held, same.apps, fun other => ?_⟩
    by_cases eq : other = key
    case pos =>
      rw [eq, Memory.history_eraseHistory_self]
      exact nofun
    case neg => exact Memory.history_eraseHistory_of_ne s eq ▸ same.histories other
  tryLock {target} good s h same := by
    have usable := lockable_of_good good lockable usable
    have free : target ∉ s.held := by simp [same.held]
    obtain ⟨h', taken, on, mirrors⟩ := tryLock_of_mirrors root whole same.on same.mirrors usable free
    refine ⟨.ok true, _, h', ?_, taken, rfl, on, mirrors, by simp [same.held], same.apps, same.histories⟩
    simp only [Memory.store, Memory.tryLock, if_neg free]
  unlock {target} good s h same := by
    have usable := lockable_of_good good lockable usable
    obtain ⟨on, mirrors⟩ := unlock_of_mirrors root whole same.on same.mirrors usable
    refine ⟨(), s.unlock target, _, rfl, rfl, trivial, on, mirrors, ?_, same.apps, same.histories⟩
    simp [Memory.unlock, same.held]

end Directory

-- Nothing is there yet, but nothing else is in the way.
structure Approach.Absent (a : Approach) (t : FileTree) : Prop where
  clear : ∀ front, front <+: a.below → t.kind (a.here ++ front) = none ∨ t.kind (a.here ++ front) = some .directory
  absent : t.kind a.place = none

theorem Approach.Absent.mirrors {a : Approach} {t : FileTree} (absent : a.Absent t) :
    a.Mirrors .empty t.kind := by
  have inside (q : List String) : t.kind (a.here ++ (a.below ++ q)) = none := by
    by_contra there
    cases q with
    | nil => exact there (by simpa [Approach.place] using absent.absent)
    | cons x rest =>
      rw [← List.append_assoc] at there
      exact absurd (absent.absent.symm.trans (FileTree.kind_below there)) nofun
  constructor
  case clear =>
    intro slot front pre
    rcases List.prefix_or_prefix_of_prefix pre (List.prefix_append ..) with short | ⟨q, rfl⟩
    · exact absent.clear front short
    · exact .inl (inside q)
  case drafts =>
    intro q x _
    rw [List.append_assoc, List.append_assoc, inside]
    exact nofun
  case slots =>
    intro slot
    rw [Approach.file, List.append_assoc, List.append_assoc, inside]
    cases slot with
    | apps => exact .inl ⟨rfl, rfl⟩
    | history => rfl
    | lock => simp [Memory.Expects, Memory.empty]

-- A request by someone, carried out by a process of its own.
structure Turn where
  account : Email
  deployments : List Name
  lockTimeout : Duration
  holder : String
  process : Nat
  mark : String
  now : Instant
  keys : Nat → AccessKey
  request : Request

namespace Turn

variable {m : Type → Type} [Monad m]

def directory (turn : Turn) (root : Path) : Directory :=
  ⟨root, turn.holder, turn.process, turn.mark⟩

def service (turn : Turn) (store : Store m) : Service m :=
  ⟨store, turn.account, turn.deployments, turn.lockTimeout⟩

def occasion (turn : Turn) : Occasion :=
  ⟨turn.now.milliseconds, turn.keys⟩

def onHost (root : Path) (turn : Turn) : StateM Host Response :=
  fun h => (turn.service (turn.directory root).onHost).handle turn.occasion turn.request { h with time := turn.now }

def onMemory (turn : Turn) : StateM Memory Response :=
  (turn.service Memory.store).handle turn.occasion turn.request

-- The keys that the turn may give to deployments.
def newKeys (turn : Turn) : List AccessKey :=
  (turn.service Memory.store).keys turn.occasion turn.request

-- The turn keeps to what a store can hold, and the system takes the names of all files that it may need.
structure Suits (turn : Turn) (root : Path) (keys : List AccessKey) : Prop where
  account : turn.account.Canonical
  now : turn.now.milliseconds < wordBound
  size : turn.request.size < wordBound
  whole : '/' ∉ turn.mark.toList
  registry : (turn.directory root).Lockable .registry
  keys : ∀ key ∈ keys, (turn.directory root).Lockable (.history key)

variable {a : Approach} {turn : Turn} {turns : List Turn} {keys : List AccessKey}

theorem Suits.mono {root : Path} {keys' : List AccessKey} (suits : turn.Suits root keys') (sub : keys ⊆ keys') :
    turn.Suits root keys :=
  { suits with keys := fun key mem => suits.keys key (sub mem) }

theorem agree_turn (suits : turn.Suits a.root keys) (new : ∀ k ∈ turn.newKeys, k ∈ keys) :
    Agree (a.Matches (· ∈ keys) none) (a.Matches (· ∈ keys) none) (fun _ => True) turn.onMemory
      (turn.onHost a.root) := by
  intro s h same
  have alike : (turn.service Memory.store).store.Alike (turn.directory a.root).onHost (· ∈ keys)
      (a.Matches (· ∈ keys)) := Directory.alike rfl suits.whole suits.registry suits.keys
  have agree := alike.agree_handle (o := turn.occasion) suits.account suits.now suits.size new
  exact agree s { h with time := turn.now } { same with on := ⟨same.on.holds, same.on.base⟩ }

theorem agree_turns (suits : ∀ turn ∈ turns, turn.Suits a.root keys)
    (new : ∀ turn ∈ turns, ∀ k ∈ turn.newKeys, k ∈ keys) :
    Agree (a.Matches (· ∈ keys) none) (a.Matches (· ∈ keys) none) (fun _ => True) (turns.mapM onMemory)
      (turns.mapM (onHost a.root)) :=
  .mapM fun turn mem => agree_turn (suits turn mem) (new turn mem)

end Turn

-- The turns are taken one after another, on a computer where the directory is not there yet. What is
-- loaded afterwards is the same, for keys that are in use and for those that are not, as long as the
-- system takes the names of the file. A directory refuses keys that are not safe for a path, and no turn
-- brings one.
theorem Turn.directory_agrees_with_memory (a : Approach) (h : Host) (turns : List Turn)
    (on : a.On h) (absent : a.Absent h.files)
    (suits : ∀ turn ∈ turns, turn.Suits a.root (turns.flatMap Turn.newKeys)) :
    (turns.mapM (Turn.onHost a.root) h).1 = (turns.mapM Turn.onMemory Memory.empty).1 ∧
      ∀ d : Directory, d.root = a.root →
        (d.apps.Taken → (d.onHost.loadApps (turns.mapM (Turn.onHost a.root) h).2).1 =
          (Memory.store.loadApps (turns.mapM Turn.onMemory Memory.empty).2).1) ∧
        ∀ key, (∀ l, d.history? key = .ok l → l.Taken →
            (d.onHost.loadHistory key (turns.mapM (Turn.onHost a.root) h).2).1 =
              (Memory.store.loadHistory key (turns.mapM Turn.onMemory Memory.empty).2).1) ∧
          (¬key.PathSafe →
            (d.onHost.loadHistory key (turns.mapM (Turn.onHost a.root) h).2).1 = .error (.badKey key)) := by
  have start : a.Matches (· ∈ turns.flatMap Turn.newKeys) none Memory.empty h :=
    ⟨on, absent.mirrors, rfl, nofun, fun _ => nofun⟩
  have new : ∀ turn ∈ turns, ∀ k ∈ turn.newKeys, k ∈ turns.flatMap Turn.newKeys :=
    fun turn mem k new => List.mem_flatMap.mpr ⟨turn, mem, new⟩
  obtain ⟨responses, s, h', ran, ran', _, same⟩ := Turn.agree_turns suits new _ _ start
  rw [ran, ran']
  refine ⟨rfl, fun d root => ⟨fun taken => ?_, fun key => ⟨fun l located taken => ?_, fun other => ?_⟩⟩⟩
  · rw [Directory.loadApps_of_taken root same.on same.mirrors taken same.apps.storable]
    rfl
  · rw [Directory.loadHistory_of_taken root same.on same.mirrors located taken (same.histories key)]
    rfl
  · rw [Directory.loadHistory_apply, Directory.history?, if_neg other]

theorem absent_bare : toNewData.Absent bare.files where
  clear front _ := by
    cases front with
    | nil => exact .inr rfl
    | cons => exact .inl rfl
  absent := rfl

theorem canonical_ann : Email.Canonical ⟨"ann@example.com"⟩ := by
  rw [Email.Canonical]
  decide +kernel

theorem fault?_production : Name.fault? "Production" = none := by
  decide

-- Ann makes an app, and releases something a minute later.
def firstTurn : Turn where
  account := ⟨"ann@example.com"⟩
  deployments := [⟨"Production", fault?_production⟩]
  lockTimeout := ⟨0⟩
  holder := "host"
  process := 1
  mark := "1"
  now := ⟨0, 0⟩
  keys _ := ⟨"k1"⟩
  request := .addApp "App"

def secondTurn : Turn :=
  { firstTurn with
    process := 2
    mark := "2"
    now := ⟨60, 0⟩
    request := .release "App" "Production" (.ok ⟨"00", 1, .file⟩) "1.0.0" {} }

theorem suits_firstTurn : firstTurn.Suits toNewData.root [⟨"k1"⟩] where
  account := canonical_ann
  now := by decide
  size := by decide
  whole := by decide
  registry := ⟨_, rfl, by decide +kernel, by decide +kernel⟩
  keys key mem := by
    cases List.mem_singleton.mp mem
    exact ⟨_, rfl, by decide +kernel, by decide +kernel⟩

theorem suits_secondTurn : secondTurn.Suits toNewData.root [⟨"k1"⟩] where
  account := canonical_ann
  now := by decide
  size := by decide
  whole := by decide
  registry := ⟨_, rfl, by decide +kernel, by decide +kernel⟩
  keys key mem := by
    cases List.mem_singleton.mp mem
    exact ⟨_, rfl, by decide +kernel, by decide +kernel⟩

def dataOfAnn : Directory :=
  firstTurn.directory toNewData.root

def annsTurns : List Turn :=
  [firstTurn, secondTurn]

theorem Turn.directory_agrees_with_memory_bare :
    (annsTurns.mapM (Turn.onHost toNewData.root) bare).1 = (annsTurns.mapM Turn.onMemory Memory.empty).1 ∧
      (∀ r ∈ (annsTurns.mapM Turn.onMemory Memory.empty).1, r.result.isOk) ∧
      (dataOfAnn.onHost.loadApps (annsTurns.mapM (Turn.onHost toNewData.root) bare).2).1 =
        (Memory.store.loadApps (annsTurns.mapM Turn.onMemory Memory.empty).2).1 ∧
      (dataOfAnn.onHost.loadHistory ⟨"k1"⟩ (annsTurns.mapM (Turn.onHost toNewData.root) bare).2).1 =
        (Memory.store.loadHistory ⟨"k1"⟩ (annsTurns.mapM Turn.onMemory Memory.empty).2).1 ∧
      ((annsTurns.mapM Turn.onMemory Memory.empty).2.history ⟨"k1"⟩).length = 1 ∧
      (dataOfAnn.onHost.loadHistory ⟨"../x"⟩ (annsTurns.mapM (Turn.onHost toNewData.root) bare).2).1 =
        .error (.badKey ⟨"../x"⟩) := by
  have suits : ∀ turn ∈ annsTurns, turn.Suits toNewData.root (annsTurns.flatMap Turn.newKeys) := by
    have keys : annsTurns.flatMap Turn.newKeys = [⟨"k1"⟩] := by decide
    rw [keys]
    simp only [annsTurns, List.forall_mem_cons]
    exact ⟨suits_firstTurn, suits_secondTurn, List.forall_mem_nil _⟩
  have ⟨responses, loaded⟩ := directory_agrees_with_memory toNewData bare annsTurns on_bare absent_bare suits
  have ⟨apps, histories⟩ := loaded dataOfAnn rfl
  have apps := apps ⟨by decide +kernel, by decide +kernel⟩
  have located : dataOfAnn.history? ⟨"k1"⟩ = .ok ⟨dataOfAnn.root.join ⟨"history"⟩, "k1" ++ ".json"⟩ :=
    Directory.history_eq_ok.mpr ⟨by decide, rfl⟩
  have history := (histories ⟨"k1"⟩).1 _ located ⟨by decide +kernel, by decide +kernel⟩
  have refused := (histories ⟨"../x"⟩).2 (by decide)
  exact ⟨responses, by decide +kernel, apps, history, by decide +kernel, refused⟩

-- In memory, a key that is not safe for a path has no history.
theorem Turn.not_agrees_for_every_key :
    ¬∀ (a : Approach) (h : Host) (turns : List Turn), a.On h → a.Absent h.files →
      (∀ turn ∈ turns, turn.Suits a.root (turns.flatMap Turn.newKeys)) →
      ∀ d : Directory, d.root = a.root → ∀ key,
        (d.onHost.loadHistory key (turns.mapM (Turn.onHost a.root) h).2).1 =
          (Memory.store.loadHistory key (turns.mapM Turn.onMemory Memory.empty).2).1 := by
  intro agrees
  have same := agrees toNewData bare [] on_bare absent_bare (List.forall_mem_nil _) dataOfAnn rfl ⟨"../x"⟩
  have refused : (dataOfAnn.onHost.loadHistory ⟨"../x"⟩ bare).1 = .error (.badKey ⟨"../x"⟩) := by
    rw [Directory.loadHistory_apply, Directory.history?, if_neg (by decide)]
  cases refused.symm.trans same

end AirRelease
