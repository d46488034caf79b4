import AirRelease.Proofs.Yaml.Cursor
import AirRelease.Yaml.Token

namespace AirRelease.Yaml.Token

variable {r r' : Reader} {c : Cursor} {first : Char} {text rest : List Char} {line column index n fuel fuel' : Nat}
  {indent : Int} {outer : List Int} {allowed : Bool}

namespace Reader

-- Outside of flow collections, with nothing held back.
def clear (c : Cursor) (indent : Int) (outer : List Int) (allowed : Bool) (n : Nat) : Reader :=
  ⟨c, indent, outer, allowed, [none], n, []⟩

@[simp] theorem cursor_clear : (clear c indent outer allowed n).cursor = c :=
  rfl

theorem dropStale?_of_none (none : r.candidates = [none]) : r.dropStale? = some r := by
  obtain ⟨c, indent, outer, allowed, candidates, n, held⟩ := r
  cases none
  rfl

section Candidate

variable {k : Candidate} (waits : r.candidates = [some k])
include waits

theorem dropStale?_of_fresh (fresh : ¬Candidate.Stale k r.cursor) : r.dropStale? = some r := by
  obtain ⟨c, indent, outer, allowed, candidates, n, held⟩ := r
  cases waits
  simp only at fresh
  simp [dropStale?, fresh]

theorem dropStale?_of_stale (stale : Candidate.Stale k r.cursor) (free : k.required = false) :
    r.dropStale? = some { r with candidates := [none] } := by
  obtain ⟨c, indent, outer, allowed, candidates, n, held⟩ := r
  cases waits
  simp only at stale
  simp [dropStale?, stale, free]

end Candidate

theorem closeBlocks_of_le (inside : r.indent ≤ column) : r.closeBlocks column = r := by
  rw [closeBlocks]
  split
  · rfl
  · cases r.outer with
    | nil => rfl
    | cons => exact if_neg (Int.not_lt.mpr inside)

section Skip

theorem length_of_readBreak? {d : Char} {c' : Cursor} (broken : c.readBreak? = some (d, c')) :
    c'.rest.length < c.rest.length := by
  unfold Cursor.readBreak? at broken
  split at broken
  case h_1 rest eq =>
    cases broken
    simp only [eq, List.length_cons]
    omega
  case h_2 b rest _ eq =>
    split at broken <;> cases broken
    simp only [eq, List.length_cons]
    omega
  case h_3 => cases broken

theorem length_skip_le (c : Cursor) (n : Nat) : (c.skip n).rest.length ≤ c.rest.length := by
  simp [Cursor.skip]

-- Where blanks and a comment on the line end.
def onLine (r : Reader) : Cursor :=
  let c := if r.cursor.index = 0 && r.cursor.rest.head? = some '\ufeff' then r.cursor.skip 1 else r.cursor
  let tabs := r.inFlow || !r.keyAllowed
  let c := c.skipWhile fun d => d = ' ' || (tabs && d = '\t')
  if c.rest.head? = some '#' then c.skipToBreak else c

theorem skipToToken_succ (r : Reader) (fuel : Nat) : r.skipToToken (fuel + 1) =
    match r.onLine.readBreak? with
    | some (_, c) => skipToToken { r with cursor := c, keyAllowed := r.keyAllowed || !r.inFlow } fuel
    | none => { r with cursor := r.onLine } :=
  rfl

theorem length_onLine_le (r : Reader) : r.onLine.rest.length ≤ r.cursor.rest.length := by
  have marked : (if r.cursor.index = 0 && r.cursor.rest.head? = some '\ufeff' then r.cursor.skip 1
      else r.cursor).rest.length ≤ r.cursor.rest.length := by
    split
    · exact length_skip_le _ _
    · exact Nat.le_refl _
  rw [onLine]
  generalize (if r.cursor.index = 0 && r.cursor.rest.head? = some '\ufeff' then r.cursor.skip 1
    else r.cursor) = c at marked
  split
  · exact (length_skip_le _ _).trans ((length_skip_le _ _).trans marked)
  · exact (length_skip_le _ _).trans marked

-- The fuel for skipping does not matter if it is enough for the text.
theorem skipToToken_of_lt (enough : r.cursor.rest.length < fuel) (enough' : r.cursor.rest.length < fuel') :
    r.skipToToken fuel = r.skipToToken fuel' := by
  induction fuel generalizing r fuel' with
  | zero => exact absurd enough (Nat.not_lt_zero _)
  | succ fuel ih =>
    cases fuel' with
    | zero => exact absurd enough' (Nat.not_lt_zero _)
    | succ fuel' =>
      rw [skipToToken_succ, skipToToken_succ]
      split
      case h_2 => rfl
      case h_1 broken =>
        have shorter := Nat.lt_of_lt_of_le (length_of_readBreak? broken) (length_onLine_le r)
        exact ih (Nat.lt_of_lt_of_le shorter (Nat.le_of_lt_succ enough))
          (Nat.lt_of_lt_of_le shorter (Nat.le_of_lt_succ enough'))

-- The reader at the next token.
def skipped (r : Reader) : Reader :=
  r.skipToToken (r.cursor.rest.length + 1)

theorem skipped_congr (same : r.onLine = r'.onLine)
    (frame : ∀ c, { r with cursor := c } = { r' with cursor := c }) : r.skipped = r'.skipped := by
  have allowed : r.keyAllowed = r'.keyAllowed := (congrArg keyAllowed (frame r.cursor) :)
  have inFlow : r.inFlow = r'.inFlow := (congrArg Reader.inFlow (frame r.cursor) :)
  rw [skipped, skipped, skipToToken_succ, skipToToken_succ, ← same]
  split
  case h_2 => exact frame _
  case h_1 c broken =>
    have shorter := length_of_readBreak? broken
    have state : ({ r with cursor := c, keyAllowed := r.keyAllowed || !r.inFlow } : Reader) =
        { r' with cursor := c, keyAllowed := r'.keyAllowed || !r'.inFlow } := by
      rw [allowed, inFlow]
      exact congrArg (fun s : Reader => { s with keyAllowed := r'.keyAllowed || !r'.inFlow }) (frame c)
    rw [state]
    exact skipToToken_of_lt (Nat.lt_of_lt_of_le shorter (length_onLine_le r))
      (Nat.lt_of_lt_of_le shorter (same ▸ length_onLine_le r'))

theorem skipped_newline (column : Nat) (allowed : Bool) :
    (clear ⟨'\n' :: rest, line, column, index⟩ indent outer allowed n).skipped =
      (clear ⟨rest, line + 1, 0, index + 1⟩ indent outer true n).skipped := by
  rw [skipped, skipToToken]
  simp [clear, Cursor.skipWhile, Cursor.skip, Cursor.readBreak?, isBreak, inFlow, skipped]

theorem skipped_space : (clear ⟨' ' :: rest, line, column, index⟩ indent outer allowed n).skipped =
    (clear ⟨rest, line, column + 1, index + 1⟩ indent outer allowed n).skipped := by
  refine skipped_congr ?_ fun _ => rfl
  simp [clear, onLine, Cursor.skipWhile, Cursor.skip, inFlow, Nat.add_assoc, Nat.add_comm 1]

theorem onLine_of_head (here : r.cursor.rest = first :: rest) (filled : isBlank first = false)
    (unmarked : first ≠ '\ufeff' ∨ r.cursor.index ≠ 0) :
    r.onLine = if first = '#' then r.cursor.skipToBreak else r.cursor := by
  have mark : ¬(decide (r.cursor.index = 0) && decide (r.cursor.rest.head? = some '\ufeff')) = true := by
    simp only [here, List.head?_cons, Option.some.injEq, Bool.and_eq_true, decide_eq_true_eq]
    exact fun ⟨start, same⟩ => unmarked.elim (· same) (· start)
  simp only [isBlank, Bool.or_eq_false_iff, decide_eq_false_iff_not] at filled
  have blanks : r.cursor.skipWhile
      (fun d => d = ' ' || ((r.inFlow || !r.keyAllowed) && d = '\t')) = r.cursor :=
    Cursor.skipWhile_of_head (by simp [here, filled])
  let ended (c : Cursor) : Cursor := if c.rest.head? = some '#' then c.skipToBreak else c
  refine ((congrArg (fun c : Cursor => ended (c.skipWhile _)) (if_neg mark)).trans (congrArg ended blanks)).trans ?_
  simp [ended, here]

theorem skipped_comment (inside : ∀ d ∈ text, isBreak d = false) :
    (clear ⟨'#' :: text ++ '\n' :: rest, line, column, index⟩ indent outer allowed n).skipped =
      (clear ⟨rest, line + 1, 0, index + (text.length + 1) + 1⟩ indent outer true n).skipped := by
  have passed : ∀ d ∈ '#' :: text, (!isBreak d) = true :=
    List.forall_mem_cons.mpr ⟨rfl, fun d mem => by rw [inside d mem]; rfl⟩
  have ended : Cursor.skipToBreak ⟨'#' :: text ++ '\n' :: rest, line, column, index⟩ =
      ⟨'\n' :: rest, line, column + (text.length + 1), index + (text.length + 1)⟩ := by
    rw [Cursor.skipToBreak, Cursor.skipWhile_of_split _ rfl passed (by simp [isBreak])]
    simp [Cursor.skip]
  rw [← skipped_newline (column + (text.length + 1)) allowed]
  refine skipped_congr ?_ fun _ => rfl
  rw [onLine_of_head rfl rfl (.inl (by decide)), if_pos rfl, cursor_clear, ended,
    onLine_of_head rfl rfl (.inl (by decide)), if_neg (by decide)]
  rfl

theorem skipped_of_head (here : r.cursor.rest = first :: rest) (solid : isSolid first) (ne : first ≠ '#')
    (passed : 0 < r.cursor.index) : r.skipped = r := by
  have filled := not_isBlank_of_isSolid solid
  have unbroken : r.cursor.readBreak? = none :=
    Cursor.readBreak?_of_not_isBreak fun d head => by
      rw [here] at head
      cases head
      exact not_isBreak_of_isSolid solid
  rw [skipped, skipToToken_succ, onLine_of_head here filled (.inr (Nat.ne_of_gt passed)), if_neg ne, unbroken]

theorem skipped_nil : (clear ⟨[], line, column, index⟩ indent outer allowed n).skipped =
    clear ⟨[], line, column, index⟩ indent outer allowed n := by
  simp [skipped, skipToToken, clear, Cursor.skipWhile, Cursor.skip, Cursor.readBreak?]

end Skip

section Step

-- What a step does at a token.
def read? (r : Reader) : Option Reader :=
  match r.cursor.rest with
  | [] => r.readEnd?
  | first :: rest => r.readToken? first rest

theorem step?_eq (r : Reader) : r.step? =
    r.skipped.dropStale?.bind fun r => (r.closeBlocks r.cursor.column).read?.bind dropStale? := by
  rw [step?, ← skipped]
  cases r.skipped.dropStale? with
  | none => rfl
  | some r =>
    simp only [bind, Option.bind_some, read?]
    cases (r.closeBlocks r.cursor.column).cursor.rest <;> rfl

theorem step?_congr (same : r.skipped = r'.skipped) : r.step? = r'.step? := by
  rw [step?_eq, step?_eq, same]

-- The token that begins where the reader is.
theorem step?_of_head (here : r.cursor.rest = first :: rest) (solid : isSolid first) (ne : first ≠ '#')
    (passed : 0 < r.cursor.index) (fresh : r.dropStale? = some r) (inside : r.indent ≤ r.cursor.column) :
    r.step? = (r.readToken? first rest).bind dropStale? := by
  rw [step?_eq, skipped_of_head here solid ne passed, fresh, Option.bind_some, closeBlocks_of_le inside, read?, here]

end Step

end Reader

section Tokens

theorem Reader.handOver_of_settled (settled : r.candidates.filterMap id = []) :
    r.handOver = (r.held, { r with ready := r.ready + r.held.length, held := [] }) := by
  unfold handOver
  rw [settled]
  simp only [List.foldl_nil, Nat.add_sub_cancel_left, List.take_length, List.drop_length]

theorem tokens_congr (same : r.step? = r'.step?) : tokens r fuel = tokens r' fuel := by
  cases fuel with
  | zero => rfl
  | succ fuel => rw [tokens, tokens, same]

theorem tokens_of_fault (fault : r.step? = none) : tokens r fuel = [] := by
  cases fuel with
  | zero => rfl
  | succ fuel => rw [tokens, fault]

-- Nothing is handed over while the first token that is held back may still become a key.
theorem tokens_of_held {k : Candidate} (taken : r.step? = some r') (waits : r'.candidates = [some k])
    (first : k.number = r'.ready) : tokens r (fuel + 1) = tokens r' fuel := by
  obtain ⟨c, indent, outer, allowed, candidates, n, held⟩ := r'
  cases waits
  rw [tokens, taken]
  simp [Reader.handOver, first]

-- The tokens of a step are handed over if none of them may still become a key.
theorem tokens_of_step (taken : r.step? = some r') (settled : r'.candidates.filterMap id = [])
    (more : r'.held.any isStreamEnd = false) : tokens r (fuel + 1) =
      r'.held ++ tokens { r' with ready := r'.ready + r'.held.length, held := [] } fuel := by
  rw [tokens, taken]
  dsimp only
  rw [Reader.handOver_of_settled settled]
  exact if_neg (Bool.eq_false_iff.mp more)

-- A step has led to this reader. The tokens that it holds are handed over, and they are such with those after
-- them.
structure Reader.Yields (r : Reader) (fuel : Nat) (P : List Token → Prop) : Prop where
  fresh : r.dropStale? = some r
  settled : r.candidates.filterMap id = []
  more : r.held.any isStreamEnd = false
  holds : P (r.held ++ tokens { r with ready := r.ready + r.held.length, held := [] } fuel)

theorem Reader.Yields.single {P : List Token → Prop} {t : Token} (more : isStreamEnd t = false)
    (holds : P (t :: tokens (.clear c indent outer allowed (n + 1)) fuel)) :
    Reader.Yields ⟨c, indent, outer, allowed, [none], n, [t]⟩ fuel P where
  fresh := rfl
  settled := rfl
  more := by simpa using more
  holds := holds

theorem tokens_cases {P : List Token → Prop} (here : r.cursor.rest = first :: rest) (solid : isSolid first)
    (ne : first ≠ '#') (passed : 0 < r.cursor.index) (fresh : r.dropStale? = some r)
    (inside : r.indent ≤ r.cursor.column) (fault : P [])
    (read : ∀ r', r.readToken? first rest = some r' → r'.Yields fuel P) : P (tokens r (fuel + 1)) := by
  have step := Reader.step?_of_head here solid ne passed fresh inside
  cases taken : r.readToken? first rest with
  | none => rwa [tokens_of_fault (by rw [step, taken]; rfl)]
  | some r' =>
    have yields := read r' taken
    rw [tokens_of_step (by rw [step, taken]; exact yields.fresh) yields.settled yields.more]
    exact yields.holds

theorem tokens_of_end (taken : r.step? = some r') (settled : r'.candidates.filterMap id = [])
    (ended : r'.held.any isStreamEnd) : tokens r (fuel + 1) = r'.held := by
  rw [tokens, taken]
  dsimp only
  rw [Reader.handOver_of_settled settled]
  exact if_pos ended

end Tokens

end AirRelease.Yaml.Token
