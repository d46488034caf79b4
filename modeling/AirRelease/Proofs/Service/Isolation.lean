import AirRelease.Proofs.Service.Effect

namespace AirRelease

theorem Registry.key_mem {r : Registry} {account : Email} {name text : String} {app : App} {d : Deployment}
    (found : r.app account name = .ok app) (target : app.deployment text = .ok d) : d.key ∈ r.keys := by
  have listed : d ∈ app.deployments := List.mem_of_find?_eq_some (deployment_eq_ok.mp target)
  exact List.mem_flatMap.mpr ⟨app, mem_of_app found, List.mem_map_of_mem listed⟩

theorem toOption_eq_some {ε α : Type} {x : Except ε α} {a : α} : x.toOption = some a ↔ x = .ok a := by
  cases x <;> simp [Except.toOption]

namespace Turn

-- What a turn asks of a history, and of which deployment, one case for each kind of request that does.
inductive Asks (turn : Turn) (s : Memory) (d : Deployment) : History.Call → Prop
  | clear (request : turn.request = .clearHistory app deployment)
      (target : s.apps.target turn.account app deployment = .ok d) : Asks turn s d .clear
  | release (request : turn.request = .release app deployment (.ok b) text o)
      (target : s.apps.target turn.account app deployment = .ok d) (version : VersionRange.ofText text = .ok v) :
    Asks turn s d (.release b.hash b.size turn.now.milliseconds v o)
  | patch (request : turn.request = .patch app deployment o)
      (target : s.apps.target turn.account app deployment = .ok d) : Asks turn s d (.patch d.name o)
  | promote (request : turn.request = .promote name first second o)
      (found : s.apps.app turn.account name = .ok app) (source : app.deployment first = .ok copied)
      (target : app.deployment second = .ok d) :
    Asks turn s d (.promote copied.name (s.history copied.key) o turn.now.milliseconds)
  | rollback (request : turn.request = .rollback app deployment label)
      (target : s.apps.target turn.account app deployment = .ok d) : Asks turn s d (.rollback d.name label)

-- The call of a deployment's history that a turn makes.
def callsOn (key : AccessKey) (s : Memory) (turn : Turn) : List History.Call :=
  match turn.historyCall? s with
  | some (d, c) => if d.key = key then [c] else []
  | none => []

-- Those that turns make one after another, each where the turns before it have left the store.
def allCallsOn (key : AccessKey) : Memory → List Turn → List History.Call
  | _, [] => []
  | s, turn :: turns => turn.callsOn key s ++ allCallsOn key (turn.onMemory s).2 turns

-- The keys that a turn takes.
def taken (s : Memory) (turn : Turn) : List AccessKey :=
  turn.registryCall?.elim [] s.apps.taken

-- Nobody holds a lock, no two deployments share a key, and only a deployment has a history.
structure Orderly (used : List AccessKey) (s : Memory) : Prop where
  idle : s.held = []
  nodup : s.apps.keys.Nodup
  used : s.apps.keys ⊆ used
  stored : ∀ e ∈ s.histories, e.1 ∈ s.apps.keys

section Step

variable {turn : Turn} {s : Memory} {used : List AccessKey} {key : AccessKey}

theorem asks_of_historyCall? {d : Deployment} {c : History.Call} (calls : turn.historyCall? s = some (d, c)) :
    turn.Asks s d c := by
  unfold historyCall? at calls
  split at calls
  case h_6 => cases calls
  all_goals
    simp only [bind, Option.bind_eq_some_iff, pure, Option.some.injEq, Prod.mk.injEq, toOption_eq_some] at calls
  case h_1 request =>
    obtain ⟨_, target, rfl, rfl⟩ := calls
    exact .clear request target
  case h_2 request =>
    obtain ⟨_, target, _, version, _, rfl, rfl, rfl⟩ := calls
    exact .release request target version
  case h_3 request =>
    obtain ⟨_, target, rfl, rfl⟩ := calls
    exact .patch request target
  case h_4 request =>
    obtain ⟨_, found, _, source, _, target, rfl, rfl⟩ := calls
    exact .promote request found source target
  case h_5 request =>
    obtain ⟨_, target, rfl, rfl⟩ := calls
    exact .rollback request target

theorem key_of_historyCall? {d : Deployment} {c : History.Call} (calls : turn.historyCall? s = some (d, c)) :
    d.key ∈ s.apps.keys := by
  cases asks_of_historyCall? calls
  case promote found _ target => exact Registry.key_mem found target
  case clear target | release target _ | patch target | rollback target =>
    obtain ⟨app, found, target⟩ := bind_eq_ok.mp target
    exact Registry.key_mem found target

theorem historyCall?_of_registryCall? {c : Registry.Call} (asks : turn.registryCall? = some c) :
    turn.historyCall? s = none := by
  unfold registryCall? at asks
  split at asks
  case h_10 => cases asks
  all_goals simp only [historyCall?, *]

-- A turn calls the registry, or it calls the history of a deployment, or it leaves the store alone.
theorem effect_cases (turn : Turn) (s : Memory) :
    (∃ c, turn.registryCall? = some c ∧ turn.historyCall? s = none ∧
      turn.effect s = (s.afterCall c).eraseHistories (s.apps.dropped c)) ∨
    turn.registryCall? = none ∧ ((∃ d c, turn.historyCall? s = some (d, c) ∧ d.key ∈ s.apps.keys ∧
      turn.effect s = s.keepHistory d.key ((s.history d.key).after c)) ∨
      turn.historyCall? s = none ∧ turn.effect s = s) := by
  cases asks : turn.registryCall? with
  | some c =>
    have only := historyCall?_of_registryCall? (s := s) asks
    exact .inl ⟨c, rfl, only, by rw [effect, asks, only]⟩
  | none =>
    refine .inr ⟨rfl, ?_⟩
    rcases calls : turn.historyCall? s with _ | ⟨d, c⟩
    · exact .inr ⟨rfl, by rw [effect, asks, calls]⟩
    · exact .inl ⟨d, c, rfl, key_of_historyCall? calls, by rw [effect, asks, calls]; rfl⟩

theorem apps_effect (turn : Turn) (s : Memory) :
    (turn.effect s).apps = turn.registryCall?.elim s.apps s.apps.after := by
  rcases effect_cases turn s with ⟨c, asks, _, eq⟩ | ⟨asks, ⟨d, c, _, _, eq⟩ | ⟨_, eq⟩⟩
  · rw [eq, asks, Memory.apps_eraseHistories]
    rfl
  · rw [eq, asks, Memory.apps_keepHistory]
    rfl
  · rw [eq, asks]
    rfl

theorem held_effect (turn : Turn) (s : Memory) : (turn.effect s).held = s.held := by
  rcases effect_cases turn s with ⟨c, _, _, eq⟩ | ⟨_, ⟨d, c, _, _, eq⟩ | ⟨_, eq⟩⟩
  · rw [eq, Memory.held_eraseHistories]
    rfl
  · rw [eq, Memory.held_keepHistory]
  · rw [eq]

theorem taken_of_registryCall? {c : Registry.Call} (asks : turn.registryCall? = some c) :
    turn.taken s = s.apps.taken c := by
  rw [taken, asks]
  rfl

theorem Orderly.fresh (orderly : Orderly used s) {keys : List AccessKey} (fresh : (used ++ keys).Nodup) :
    (s.apps.keys ++ keys).Nodup := by
  have ⟨_, new, apart⟩ := List.nodup_append.mp fresh
  exact List.nodup_append.mpr ⟨orderly.nodup, new, fun k mem => apart k (orderly.used mem)⟩

theorem keys_effect (mem : key ∈ (turn.effect s).apps.keys) : key ∈ s.apps.keys ∨ key ∈ turn.taken s := by
  rw [apps_effect] at mem
  cases asks : turn.registryCall? with
  | none =>
    rw [asks] at mem
    exact .inl mem
  | some c =>
    rw [asks] at mem
    rw [taken_of_registryCall? asks]
    exact Registry.mem_keys_after mem

theorem stored_effect (stored : ∀ e ∈ s.histories, e.1 ∈ s.apps.keys) :
    ∀ e ∈ (turn.effect s).histories, e.1 ∈ (turn.effect s).apps.keys := by
  intro e mem
  rw [apps_effect]
  rcases effect_cases turn s with ⟨c, asks, _, eq⟩ | ⟨asks, ⟨d, c, _, known, eq⟩ | ⟨_, eq⟩⟩
  all_goals rw [eq] at mem
  all_goals rw [asks]
  · obtain ⟨mem, kept⟩ := Memory.mem_histories_eraseHistories mem
    exact (Registry.mem_keys_after_or_dropped (stored e mem)).resolve_right kept
  · rcases Memory.mem_histories_keepHistory mem with same | old
    · exact same ▸ known
    · exact stored e old
  · exact stored e mem

theorem orderly_effect (orderly : Orderly used s) (fresh : (used ++ turn.taken s).Nodup) :
    Orderly (used ++ turn.taken s) (turn.effect s) where
  idle := (held_effect turn s).trans orderly.idle
  nodup := by
    rw [apps_effect]
    cases asks : turn.registryCall? with
    | none => exact orderly.nodup
    | some c =>
      have now := orderly.fresh (taken_of_registryCall? asks ▸ fresh)
      exact (List.nodup_append.mp (Registry.nodup_after now)).1
  used k mem := by
    rcases keys_effect mem with old | new
    · exact List.mem_append_left _ (orderly.used old)
    · exact List.mem_append_right _ new
  stored := stored_effect orderly.stored

-- A deployment keeps its history, changed only by the calls that are meant for it. One that has been
-- removed does not keep it, but then its key is not in the registry any more.
theorem history_effect (orderly : Orderly used s) (fresh : (used ++ turn.taken s).Nodup)
    (mem : key ∈ (turn.effect s).apps.keys) :
    (turn.effect s).history key = (s.history key).run (turn.callsOn key s) := by
  rcases effect_cases turn s with ⟨c, asks, only, eq⟩ | ⟨_, ⟨d, c, asks, _, eq⟩ | ⟨asks, eq⟩⟩
  case inl =>
    have kept : key ∉ s.apps.dropped c := by
      have now := Registry.nodup_after (orderly.fresh (taken_of_registryCall? asks ▸ fresh))
      rw [apps_effect, asks] at mem
      exact fun lost => (List.nodup_append.mp now).2.2 key mem key lost rfl
    rw [callsOn, only, eq, Memory.history_eraseHistories_of_notMem kept]
    rfl
  case inr.inl =>
    rw [callsOn, asks, eq]
    by_cases same : d.key = key
    case pos =>
      subst same
      rw [Memory.history_keepHistory_self]
      simp only [if_true]
      rfl
    case neg =>
      simp only [if_neg same, Memory.history_keepHistory_of_ne (Ne.symm same)]
      rfl
  case inr.inr =>
    rw [callsOn, asks, eq]
    rfl

theorem history_of_not_stored (no : ∀ e ∈ s.histories, e.1 ≠ key) : s.history key = .empty := by
  have none : s.histories.lookup key = none :=
    List.lookup_eq_none_iff.mpr fun e mem => bne_iff_ne.mpr (no e mem).symm
  rw [Memory.history, none]
  rfl

-- Nothing happens to a key before it is taken.
theorem history_effect_of_unused (orderly : Orderly used s) (fresh : (used ++ turn.taken s).Nodup)
    (unused : key ∉ used ++ turn.taken s) :
    (turn.effect s).history key = (s.history key).run (turn.callsOn key s) := by
  have before : key ∉ s.apps.keys := fun mem => unused (List.mem_append_left _ (orderly.used mem))
  have orderly' := orderly_effect orderly fresh
  have none : s.history key = .empty :=
    history_of_not_stored fun e mem same => before (same ▸ orderly.stored e mem)
  have none' : (turn.effect s).history key = .empty :=
    history_of_not_stored fun e mem same => unused (orderly'.used (same ▸ orderly'.stored e mem))
  have calls : turn.callsOn key s = [] := by
    rw [callsOn]
    rcases asks : turn.historyCall? s with _ | ⟨d, c⟩
    · rfl
    · have ne : d.key ≠ key := fun same => before (same ▸ key_of_historyCall? asks)
      exact if_neg ne
  rw [none, none', calls]
  rfl

end Step

section Run

variable {turns : List Turn} {s : Memory} {used : List AccessKey} {key : AccessKey}

-- The keys that turns take, one after another.
def allTaken (r : Registry) (turns : List Turn) : List AccessKey :=
  r.takenBy (turns.filterMap registryCall?)

theorem allTaken_cons (turn : Turn) (turns : List Turn) (s : Memory) :
    allTaken s.apps (turn :: turns) = turn.taken s ++ allTaken (turn.effect s).apps turns := by
  rw [allTaken, List.filterMap_cons, taken, apps_effect]
  cases turn.registryCall? <;> rfl

theorem mapM_onMemory_cons (turn : Turn) (turns : List Turn) (s : Memory) :
    ((turn :: turns).mapM onMemory s).2 = (turns.mapM onMemory (turn.onMemory s).2).2 := by
  rw [List.mapM_cons]
  rfl

theorem run_append (h : History) (calls more : List History.Call) : h.run (calls ++ more) = (h.run calls).run more :=
  List.foldl_append

theorem orderly_of_turns (orderly : Orderly used s) (fresh : (used ++ allTaken s.apps turns).Nodup) :
    Orderly (used ++ allTaken s.apps turns) (turns.mapM onMemory s).2 := by
  induction turns generalizing s used with
  | nil => exact (List.append_nil used).symm ▸ orderly
  | cons turn turns ih =>
    rw [allTaken_cons, ← List.append_assoc] at fresh ⊢
    rw [mapM_onMemory_cons, state_onMemory orderly.idle]
    exact ih (orderly_effect orderly (List.nodup_append.mp fresh).1) fresh

theorem keys_of_turns (orderly : Orderly used s) (fresh : (used ++ allTaken s.apps turns).Nodup)
    (mem : key ∈ (turns.mapM onMemory s).2.apps.keys) : key ∈ s.apps.keys ∨ key ∈ allTaken s.apps turns := by
  induction turns generalizing s used with
  | nil => exact .inl mem
  | cons turn turns ih =>
    rw [allTaken_cons, ← List.append_assoc] at fresh
    rw [mapM_onMemory_cons, state_onMemory orderly.idle] at mem
    rw [allTaken_cons, List.mem_append]
    rcases ih (orderly_effect orderly (List.nodup_append.mp fresh).1) fresh mem with now | later
    · exact (keys_effect now).imp_right .inl
    · exact .inr (.inr later)

-- By induction on the turns: a key that is in the registry at the end has been there after the first
-- turn, or else it has been taken later.
theorem history_of_turns (orderly : Orderly used s) (fresh : (used ++ allTaken s.apps turns).Nodup)
    (mem : key ∈ (turns.mapM onMemory s).2.apps.keys) :
    (turns.mapM onMemory s).2.history key = (s.history key).run (allCallsOn key s turns) := by
  induction turns generalizing s used with
  | nil => rfl
  | cons turn turns ih =>
    rw [allTaken_cons, ← List.append_assoc] at fresh
    rw [mapM_onMemory_cons, state_onMemory orderly.idle] at mem ⊢
    have ⟨now, _, apart⟩ := List.nodup_append.mp fresh
    have orderly' := orderly_effect orderly now
    have first : (turn.effect s).history key = (s.history key).run (turn.callsOn key s) := by
      rcases keys_of_turns orderly' fresh mem with there | later
      · exact history_effect orderly now there
      · exact history_effect_of_unused orderly now fun used => apart key used key later rfl
    rw [ih orderly' fresh mem, first, allCallsOn, state_onMemory orderly.idle, run_append]

end Run

-- What turns leave of a store in memory, and of a computer with a store in a directory.
def memoryAfter (turns : List Turn) : Memory :=
  (turns.mapM onMemory Memory.empty).2

def hostAfter (root : Path) (h : Host) (turns : List Turn) : Host :=
  (turns.mapM (onHost root) h).2

theorem memoryAfter_concat (done : List Turn) (turn : Turn) :
    memoryAfter (done ++ [turn]) = (turn.onMemory (memoryAfter done)).2 := by
  simp only [memoryAfter, List.mapM_append]
  rfl

theorem idle_after (turns : List Turn) : (memoryAfter turns).held = [] := by
  induction turns using List.reverseRecOn with
  | nil => rfl
  | append_singleton done turn ih => rw [memoryAfter_concat, state_onMemory ih, held_effect, ih]

theorem matches_after {a : Approach} {h : Host} {turns : List Turn} {keys : List AccessKey} (on : a.On h)
    (absent : a.Absent h.files) (suits : ∀ turn ∈ turns, turn.Suits a.root keys)
    (new : ∀ turn ∈ turns, ∀ k ∈ turn.newKeys, k ∈ keys) :
    a.Matches (· ∈ keys) none (memoryAfter turns) (hostAfter a.root h turns) := by
  obtain ⟨_, _, _, ran, ran', _, same⟩ := agree_turns suits new _ _
    ⟨on, absent.mirrors, rfl, nofun, fun _ => nofun⟩
  rw [memoryAfter, hostAfter, ran, ran']
  exact same

end Turn

theorem Memory.mem_of_lookup {s : Memory} {key : AccessKey} {h : History}
    (found : s.histories.lookup key = some h) : ∃ e ∈ s.histories, e.1 = key := by
  by_contra missing
  push Not at missing
  have none : s.histories.lookup key = none :=
    List.lookup_eq_none_iff.mpr fun e mem => bne_iff_ne.mpr (missing e mem).symm
  exact nomatch found.symm.trans none

-- The turns are taken one after another, in memory or in a directory which is not there yet, and no key
-- comes twice. A call that was meant for a deployment comes after the deployment's creation, since until
-- then its key is not in the registry.
theorem Turn.histories_of_turns (turns : List Turn)
    (fresh : (Registry.empty.takenBy (turns.filterMap Turn.registryCall?)).Nodup) :
    (∀ e ∈ (memoryAfter turns).histories, e.1 ∈ (memoryAfter turns).apps.keys) ∧
    (∀ key ∈ (memoryAfter turns).apps.keys,
      (memoryAfter turns).history key = History.empty.run (allCallsOn key .empty turns)) ∧
    ∀ (a : Approach) (h : Host), a.On h → a.Absent h.files →
      (∀ turn ∈ turns, turn.Suits a.root (turns.flatMap newKeys)) →
      (∀ key, (hostAfter a.root h turns).files.kind (a.file (.history key)) ≠ none →
        key ∈ (memoryAfter turns).apps.keys) ∧
      ∀ d : Directory, d.root = a.root → '/' ∉ d.mark.toList → d.Lockable .registry →
        (d.onHost.loadApps (hostAfter a.root h turns)).1 = .ok (memoryAfter turns).apps ∧
        ∀ key ∈ (memoryAfter turns).apps.keys, d.Lockable (.history key) →
          (d.onHost.loadHistory key (hostAfter a.root h turns)).1 =
            .ok (History.empty.run (allCallsOn key .empty turns)) := by
  have start : Orderly [] Memory.empty := ⟨rfl, .nil, List.Subset.refl _, nofun⟩
  have stored := (orderly_of_turns start fresh).stored
  have histories {key : AccessKey} (mem : key ∈ (memoryAfter turns).apps.keys) :
      (memoryAfter turns).history key = History.empty.run (allCallsOn key .empty turns) :=
    history_of_turns start fresh mem
  refine ⟨stored, fun key => histories, fun a h on absent suits => ?_⟩
  have same : a.Matches (· ∈ turns.flatMap newKeys) none (memoryAfter turns) (hostAfter a.root h turns) :=
    matches_after on absent suits fun turn mem k new => List.mem_flatMap.mpr ⟨turn, mem, new⟩
  refine ⟨fun key there => ?_, fun d root whole lockable => ⟨?_, fun key mem lockable => ?_⟩⟩
  · have expects : (memoryAfter turns).Expects (.history key) _ := same.mirrors.slots (.history key)
    rw [Memory.Expects] at expects
    rw [expects, ne_eq, Option.map_eq_none_iff] at there
    obtain ⟨h, found⟩ := Option.ne_none_iff_exists'.mp there
    obtain ⟨e, mem, rfl⟩ := Memory.mem_of_lookup found
    exact stored e mem
  · rw [Directory.loadApps_of_mirrors root whole same.on same.mirrors lockable same.apps.storable]
  · rw [Directory.loadHistory_of_mirrors root whole same.on same.mirrors lockable (same.histories key),
      histories mem]

-- Ann releases to one deployment, renames it and goes on. Another deployment is removed after a release,
-- and is made again under the same name.
def turnOfAnn (key : AccessKey) (request : Request) : Turn :=
  { firstTurn with keys := fun _ => key, request }

def tidyingTurns : List Turn := [
  turnOfAnn ⟨"k1"⟩ (.addApp "App"),
  turnOfAnn ⟨"k1"⟩ (.release "App" "Production" (.ok ⟨"00", 1, .file⟩) "1.0.0" {}),
  turnOfAnn ⟨"k2"⟩ (.addDeployment "App" "Beta"),
  turnOfAnn ⟨"k2"⟩ (.release "App" "Beta" (.ok ⟨"01", 1, .file⟩) "1.0.0" {}),
  turnOfAnn ⟨"k2"⟩ (.renameDeployment "App" "Production" "Live"),
  turnOfAnn ⟨"k2"⟩ (.removeDeployment "App" "Beta"),
  turnOfAnn ⟨"k3"⟩ (.addDeployment "App" "Beta"),
  turnOfAnn ⟨"k3"⟩ (.promote "App" "Live" "Beta" {}),
  turnOfAnn ⟨"k3"⟩ (.release "App" "Live" (.ok ⟨"02", 1, .file⟩) "1.0.0" {})]

theorem lockable_dataOfAnn : ∀ key ∈ [⟨"k1"⟩, ⟨"k2"⟩, ⟨"k3"⟩], dataOfAnn.Lockable (.history key) := by
  simp only [List.forall_mem_cons]
  exact ⟨⟨_, rfl, by decide +kernel, by decide +kernel⟩, ⟨_, rfl, by decide +kernel, by decide +kernel⟩,
    ⟨_, rfl, by decide +kernel, by decide +kernel⟩, List.forall_mem_nil _⟩

theorem suits_turnOfAnn {key : AccessKey} {request : Request} (size : request.size < wordBound) :
    (turnOfAnn key request).Suits toNewData.root [⟨"k1"⟩, ⟨"k2"⟩, ⟨"k3"⟩] where
  account := canonical_ann
  now := suits_firstTurn.now
  size := size
  whole := suits_firstTurn.whole
  registry := suits_firstTurn.registry
  keys := lockable_dataOfAnn

theorem Turn.histories_of_turns_tidying :
    (Registry.empty.takenBy (tidyingTurns.filterMap Turn.registryCall?)).Nodup ∧
    (memoryAfter tidyingTurns).apps.keys = [⟨"k1"⟩, ⟨"k3"⟩] ∧
    (memoryAfter tidyingTurns).histories.map (·.1) = [⟨"k1"⟩, ⟨"k3"⟩] ∧
    (allCallsOn ⟨"k1"⟩ .empty tidyingTurns).length = 2 ∧
    (allCallsOn ⟨"k3"⟩ .empty tidyingTurns).length = 1 ∧
    (memoryAfter tidyingTurns).history ⟨"k3"⟩ = History.empty.run (allCallsOn ⟨"k3"⟩ .empty tidyingTurns) ∧
    (dataOfAnn.onHost.loadHistory ⟨"k1"⟩ (hostAfter toNewData.root bare tidyingTurns)).1 =
      .ok (History.empty.run (allCallsOn ⟨"k1"⟩ .empty tidyingTurns)) := by
  have fresh : (Registry.empty.takenBy (tidyingTurns.filterMap Turn.registryCall?)).Nodup := by decide +kernel
  have keys : (memoryAfter tidyingTurns).apps.keys = [⟨"k1"⟩, ⟨"k3"⟩] := by decide +kernel
  have suits : ∀ turn ∈ tidyingTurns, turn.Suits toNewData.root (tidyingTurns.flatMap newKeys) := by
    have new : tidyingTurns.flatMap newKeys = [⟨"k1"⟩, ⟨"k2"⟩, ⟨"k3"⟩] := by decide
    rw [new]
    simp only [tidyingTurns, List.forall_mem_cons]
    refine ⟨?_, ?_, ?_, ?_, ?_, ?_, ?_, ?_, ?_, List.forall_mem_nil _⟩
    all_goals exact suits_turnOfAnn (by decide)
  obtain ⟨_, histories, inDirectory⟩ := histories_of_turns tidyingTurns fresh
  obtain ⟨_, loaded⟩ := inDirectory toNewData bare on_bare absent_bare suits
  obtain ⟨_, load⟩ := loaded dataOfAnn rfl (by decide) suits_firstTurn.registry
  refine ⟨fresh, keys, by decide +kernel, by decide +kernel, by decide +kernel, ?_, ?_⟩
  · exact histories _ (by rw [keys]; decide)
  · exact load _ (by rw [keys]; decide) (lockable_dataOfAnn _ (by decide))

end AirRelease
