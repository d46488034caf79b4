import Mathlib.Data.List.Induction
import Mathlib.Data.String.Basic
import AirRelease.Files.Path

namespace AirRelease.Path

variable {p : Path} {x y : String} {ns : List String}

-- Part of a path as it is written, from one slash to the next.
def IsPart (x : String) : Prop :=
  '/' ∉ x.toList

-- A part that leads on to something of this name.
structure IsName (x : String) : Prop where
  whole : IsPart x
  not_empty : x ≠ ""
  not_dot : x ≠ "."

instance (x : String) : Decidable (IsName x) :=
  decidable_of_iff ('/' ∉ x.toList ∧ x ≠ "" ∧ x ≠ ".")
    ⟨fun ⟨whole, not_empty, not_dot⟩ => ⟨whole, not_empty, not_dot⟩,
      fun ⟨whole, not_empty, not_dot⟩ => ⟨whole, not_empty, not_dot⟩⟩

theorem splitOn_append (a b : List Char) :
    (a ++ '/' :: b).splitOn '/' = a.splitOn '/' ++ b.splitOn '/' :=
  List.splitOnP_append_cons a b (p := (· == '/')) (beq_self_eq_true '/')

theorem splitOn_of_isPart (part : IsPart x) : x.toList.splitOn '/' = [x.toList] :=
  List.splitOnP_eq_singleton fun _ mem => beq_false_of_ne fun eq => part (eq ▸ mem)

-- The parts of a path that lead somewhere, dots included.
def filled (p : Path) : List String :=
  p.parts.filter (· ≠ "")

theorem names_eq (p : Path) : p.names = p.filled.filter (· ≠ ".") := by
  simp only [names, filled, List.filter_filter]
  congr
  funext x
  exact Bool.and_comm ..

theorem filter_steps (p : Path) : p.steps.filter (· ≠ ".") = p.names := by
  rw [names_eq, steps]
  split
  · rw [List.filter_append]
    exact List.append_nil _
  · rfl

theorem parts_join (part : IsPart x) : ∃ before, (p.join ⟨x⟩).parts = before ++ [x] ∧
    before.filter (· ≠ "") = p.filled := by
  have relative : ¬IsAbsolute ⟨x⟩ := fun absolute => part (List.mem_of_mem_head? absolute)
  unfold join
  split
  case isTrue h =>
    refine ⟨[], by simp [parts, splitOn_of_isPart part], ?_⟩
    have empty := h.resolve_left relative
    simp [filled, parts, empty, List.splitOn]
  case isFalse =>
    split
    case isTrue slash =>
      obtain ⟨front, eq⟩ := List.getLast?_eq_some_iff.mp slash
      refine ⟨(front.splitOn '/').map String.ofList, ?_, ?_⟩
      · simp [parts, eq, splitOn_append, splitOn_of_isPart part]
      · have split : (front ++ ['/']).splitOn '/' = front.splitOn '/' ++ [[]] := splitOn_append front []
        simp [filled, parts, eq, split]
    case isFalse =>
      exact ⟨p.parts, by simp [parts, splitOn_append, splitOn_of_isPart part], rfl⟩

theorem filled_join (part : IsPart x) (ne : x ≠ "") : (p.join ⟨x⟩).filled = p.filled ++ [x] := by
  obtain ⟨before, eq, same⟩ := parts_join (p := p) part
  rw [filled, eq, List.filter_append, same]
  simp [ne]

theorem steps_join (part : IsPart x) (ne : x ≠ "") : (p.join ⟨x⟩).steps = p.filled ++ [x] := by
  obtain ⟨before, eq, -⟩ := parts_join (p := p) part
  rw [steps, if_neg (by simp [eq, ne])]
  exact filled_join part ne

theorem names_join (name : IsName x) : (p.join ⟨x⟩).names = p.names ++ [x] := by
  rw [names_eq, filled_join name.whole name.not_empty, List.filter_append, ← names_eq]
  simp [name.not_dot]

theorem isAbsolute_join (part : IsPart x) : (p.join ⟨x⟩).IsAbsolute ↔ p.IsAbsolute := by
  have relative : ¬IsAbsolute ⟨x⟩ := fun absolute => part (List.mem_of_mem_head? absolute)
  unfold join
  split
  case isTrue h =>
    have empty := h.resolve_left relative
    exact iff_of_false relative (by simp [IsAbsolute, empty])
  case isFalse h =>
    have filled : p.text.toList ≠ [] := fun empty => h (.inr (String.toList_eq_nil_iff.mp empty))
    obtain ⟨c, cs, eq⟩ := List.exists_cons_of_ne_nil filled
    split <;> simp [IsAbsolute, eq]

-- The path with a slash at its end, unless it is empty.
def lead (p : Path) : String :=
  if p.text = "" then "" else if p.text.toList.getLast? = some '/' then p.text else p.text ++ "/"

theorem text_join_of_relative {q : Path} (relative : ¬q.IsAbsolute) : (p.join q).text = p.lead ++ q.text := by
  by_cases empty : p.text = ""
  case pos => simp [join, lead, empty]
  case neg =>
    rw [join, if_neg (by simp [relative, empty]), lead, if_neg empty]
    split <;> rfl

theorem not_isAbsolute_of_isPart (part : IsPart x) : ¬IsAbsolute ⟨x⟩ :=
  fun absolute => part (List.mem_of_mem_head? absolute)

theorem text_join (part : IsPart x) : (p.join ⟨x⟩).text = p.lead ++ x :=
  text_join_of_relative (not_isAbsolute_of_isPart part)

theorem size_join (part : IsPart x) :
    p.text.utf8ByteSize + x.utf8ByteSize ≤ (p.join ⟨x⟩).text.utf8ByteSize := by
  rw [text_join part, String.utf8ByteSize_append, lead]
  split
  case isTrue empty => simp [empty]
  case isFalse => split <;> simp

theorem text_prefix_join (part : IsPart x) : p.text.toList <+: (p.join ⟨x⟩).text.toList := by
  rw [text_join part, lead]
  split
  case isTrue empty => simp [empty]
  case isFalse =>
    split
    · simp
    · simp

theorem lead_join (name : IsName x) : (p.join ⟨x⟩).lead = p.lead ++ x ++ "/" := by
  have filled : x.toList ≠ [] := mt String.toList_eq_nil_iff.mp name.not_empty
  have last : (p.lead ++ x).toList.getLast? ≠ some '/' := by
    rw [String.toList_append, List.getLast?_append, List.getLast?_eq_some_getLast filled]
    exact fun eq => name.whole (Option.some.inj eq ▸ List.getLast_mem filled)
  rw [lead, text_join name.whole, if_neg (by simp [name.not_empty]), if_neg last]

theorem text_join_join (first : IsName x) (second : IsPart y) :
    ((p.join ⟨x⟩).join ⟨y⟩).text = p.lead ++ x ++ "/" ++ y := by
  rw [text_join second, lead_join first]

theorem join_join {q : Path} (name : IsName x) (relative : ¬q.IsAbsolute) :
    (p.join ⟨x⟩).join q = p.join ⟨x ++ "/" ++ q.text⟩ := by
  obtain ⟨c, cs, eq⟩ := List.exists_cons_of_ne_nil (mt String.toList_eq_nil_iff.mp name.not_empty)
  have other : c ≠ '/' := fun same => name.whole (by simp [eq, same])
  have still : ¬IsAbsolute ⟨x ++ "/" ++ q.text⟩ := by simp [IsAbsolute, eq, other]
  rw [Path.mk.injEq, text_join_of_relative relative, text_join_of_relative still, lead_join name]
  simp only [String.append_assoc]

theorem not_mem_of_mem_splitOn {cs part : List Char} (mem : part ∈ cs.splitOn '/') : '/' ∉ part := by
  induction cs generalizing part with
  | nil =>
    rw [List.splitOn_nil, List.mem_singleton] at mem
    exact mem ▸ List.not_mem_nil
  | cons c cs ih =>
    rw [List.splitOn, List.splitOnP_cons_eq_if_modifyHead] at mem
    split at mem
    case isTrue =>
      rcases List.mem_cons.mp mem with rfl | mem
      · exact List.not_mem_nil
      · exact ih mem
    case isFalse ne =>
      obtain ⟨first, rest, eq⟩ := List.exists_cons_of_ne_nil (List.splitOn_ne_nil '/' cs)
      rw [show cs.splitOnP (· == '/') = first :: rest from eq, List.modifyHead_cons] at mem
      rw [eq] at ih
      rcases List.mem_cons.mp mem with rfl | mem
      · have other := ih List.mem_cons_self
        exact fun mem => (List.mem_cons.mp mem).elim (fun same => ne (beq_iff_eq.mpr same.symm)) other
      · exact ih (List.mem_cons_of_mem _ mem)

theorem isName_of_mem_names (mem : x ∈ p.names) : IsName x := by
  simp only [names, parts, List.mem_filter, List.mem_map, Bool.and_eq_true, decide_eq_true_eq] at mem
  obtain ⟨⟨part, split, rfl⟩, not_empty, not_dot⟩ := mem
  exact ⟨by simpa [IsPart] using not_mem_of_mem_splitOn split, not_empty, not_dot⟩

theorem splitOn_intercalate {xs : List String} (parts : ∀ x ∈ xs, IsPart x) (ne : xs ≠ []) :
    ("/".intercalate xs).toList.splitOn '/' = xs.map String.toList := by
  rw [String.toList_intercalate]
  refine List.splitOn_intercalate '/' (fun cs among => ?_) (by simpa using ne)
  obtain ⟨x, mem, rfl⟩ := List.mem_map.mp among
  exact parts x mem

theorem parts_intercalate (parts : ∀ x ∈ ns, IsPart x) (ne : ns ≠ []) : (Path.mk ("/".intercalate ns)).parts = ns := by
  rw [Path.parts, splitOn_intercalate parts ne]
  simp

theorem intercalate_inj {xs ys : List String} (parts : ∀ x ∈ xs, IsPart x) (parts' : ∀ y ∈ ys, IsPart y)
    (ne : xs ≠ []) (ne' : ys ≠ []) (same : "/".intercalate xs = "/".intercalate ys) : xs = ys := by
  have split := splitOn_intercalate parts ne
  rw [same, splitOn_intercalate parts' ne'] at split
  exact (List.map_injective_iff.mpr fun _ _ => String.toList_inj.mp) split.symm

section OfNames

variable {absolute : Bool} (named : ∀ x ∈ ns, IsName x) (ne : ns ≠ [])
include named ne

theorem parts_ofNames : (ofNames absolute ns).parts = (if absolute then [""] else []) ++ ns := by
  have split := splitOn_intercalate (fun x mem => (named x mem).whole) ne
  have back : (ns.map String.toList).map String.ofList = ns := by simp
  cases absolute with
  | false => rw [parts, ofNames, if_neg nofun, String.empty_append, split, back]; rfl
  | true =>
    have lead : ("/" ++ "/".intercalate ns).toList = [] ++ '/' :: ("/".intercalate ns).toList := by
      simp
    rw [parts, ofNames, if_pos rfl, lead, splitOn_append, split, List.map_append, back]
    rfl

theorem filled_ofNames : (ofNames absolute ns).filled = ns := by
  have keep : ns.filter (· ≠ "") = ns :=
    List.filter_eq_self.mpr fun x mem => decide_eq_true (named x mem).not_empty
  rw [filled, parts_ofNames named ne, List.filter_append, keep]
  cases absolute <;> rfl

theorem names_ofNames : (ofNames absolute ns).names = ns := by
  rw [names_eq, filled_ofNames named ne]
  exact List.filter_eq_self.mpr fun x mem => decide_eq_true (named x mem).not_dot

theorem steps_ofNames : (ofNames absolute ns).steps = ns := by
  have last : (ofNames absolute ns).parts.getLast? ≠ some "" := by
    obtain ⟨front, x, rfl⟩ := List.eq_nil_or_concat ns |>.resolve_left ne
    rw [List.concat_eq_append] at named ne ⊢
    rw [parts_ofNames named ne, ← List.append_assoc, List.getLast?_concat]
    exact fun last => (named x (by simp)).not_empty (Option.some.inj last)
  rw [steps, if_neg (last ·.1)]
  exact filled_ofNames named ne

theorem text_ofNames_ne : (ofNames absolute ns).text ≠ "" := by
  intro empty
  have names : (ofNames absolute ns).names = ns := names_ofNames named ne
  rw [Path.names, parts, empty] at names
  exact ne (by simpa using names.symm)

theorem isAbsolute_ofNames : (ofNames absolute ns).IsAbsolute ↔ absolute := by
  cases absolute with
  | true => simp [ofNames, IsAbsolute]
  | false =>
    obtain ⟨x, xs, rfl⟩ := List.exists_cons_of_ne_nil ne
    have ⟨whole, not_empty, _⟩ := named x List.mem_cons_self
    obtain ⟨c, cs, eq⟩ := List.exists_cons_of_ne_nil (mt String.toList_eq_nil_iff.mp not_empty)
    have other : c ≠ '/' := fun same => whole (by simp [eq, same])
    cases xs <;> simp [ofNames, IsAbsolute, eq, other]

end OfNames

section Below

-- The path that goes on by the names, one after another.
def below (p : Path) (ns : List String) : Path :=
  ns.foldl (fun q x => q.join ⟨x⟩) p

theorem below_nil : p.below [] = p :=
  rfl

theorem below_concat : p.below (ns ++ [x]) = (p.below ns).join ⟨x⟩ := by
  simp [below]

variable (named : ∀ x ∈ ns, IsName x)
include named

theorem filled_below : (p.below ns).filled = p.filled ++ ns := by
  induction ns using List.reverseRecOn with
  | nil => simp [below]
  | append_singleton ns x ih =>
    obtain ⟨named, name⟩ := List.forall_mem_append.mp named
    have last : IsName x := name x (List.mem_singleton_self x)
    rw [below_concat, filled_join last.whole last.not_empty, ih named, List.append_assoc]

theorem isAbsolute_below : (p.below ns).IsAbsolute ↔ p.IsAbsolute := by
  induction ns using List.reverseRecOn with
  | nil => rfl
  | append_singleton ns x ih =>
    obtain ⟨named, name⟩ := List.forall_mem_append.mp named
    rw [below_concat, isAbsolute_join (name x (List.mem_singleton_self x)).whole, ih named]

theorem steps_below (ne : ns ≠ []) : (p.below ns).steps = p.filled ++ ns := by
  obtain ⟨front, x, rfl⟩ := List.eq_nil_or_concat ns |>.resolve_left ne
  rw [List.concat_eq_append] at named ⊢
  obtain ⟨named, name⟩ := List.forall_mem_append.mp named
  have last : IsName x := name x (List.mem_singleton_self x)
  rw [below_concat, steps_join last.whole last.not_empty, filled_below named, List.append_assoc]

-- Every name takes some of the length.
theorem length_le_below : p.text.utf8ByteSize + ns.length ≤ (p.below ns).text.utf8ByteSize := by
  induction ns using List.reverseRecOn with
  | nil => simp [below]
  | append_singleton ns x ih =>
    obtain ⟨named, name⟩ := List.forall_mem_append.mp named
    have last : IsName x := name x (List.mem_singleton_self x)
    have longer : 0 < x.utf8ByteSize :=
      Nat.pos_of_ne_zero (mt String.utf8ByteSize_eq_zero_iff.mp last.not_empty)
    have joined := size_join (p := p.below ns) last.whole
    have := ih named
    rw [below_concat, List.length_append, List.length_singleton]
    omega

theorem join_intercalate (ne : ns ≠ []) : p.join ⟨"/".intercalate ns⟩ = p.below ns := by
  induction ns generalizing p with
  | nil => exact absurd rfl ne
  | cons x ns ih =>
    obtain ⟨name, named⟩ := List.forall_mem_cons.mp named
    cases ns with
    | nil => simp [below]
    | cons y ns =>
      have relative : ¬(ofNames false (y :: ns)).IsAbsolute := by
        simp [isAbsolute_ofNames named (List.cons_ne_nil _ _)]
      rw [ofNames, if_neg nofun, String.empty_append] at relative
      rw [String.intercalate_cons_cons, ← join_join name relative, ih named (List.cons_ne_nil _ _)]
      rfl

end Below

section Shorter

theorem intercalate_sublist {xs ys : List (List Char)} (sub : xs.Sublist ys) :
    (['/'].intercalate xs).Sublist (['/'].intercalate ys) := by
  induction sub with
  | slnil => exact .refl _
  | @cons xs ys y _ ih =>
    refine ih.trans ?_
    cases ys with
    | nil => simp
    | cons z ys => simp only [List.intercalate_cons_cons]; exact List.sublist_append_right ..
  | @cons_cons xs ys x sub ih =>
    cases xs with
    | nil =>
      cases ys with
      | nil => exact .refl _
      | cons => simp
    | cons y xs =>
      obtain ⟨z, ys, rfl⟩ := List.exists_cons_of_length_pos (Nat.lt_of_lt_of_le (Nat.zero_lt_succ _) sub.length_le)
      simp only [List.intercalate_cons_cons]
      exact ih.append_left _

-- The path of some of the names is spelt with part of the characters.
theorem ofNames_sublist (sub : ns.Sublist p.names) :
    (ofNames p.IsAbsolute ns).text.toList.Sublist p.text.toList := by
  have named : ∀ x ∈ ns, IsName x := fun x mem => isName_of_mem_names (sub.subset mem)
  have spelt {cs : List Char} (among : (ns.map String.toList).Sublist (cs.splitOn '/')) :
      ("/".intercalate ns).toList.Sublist cs := by
    rw [String.toList_intercalate]
    exact (intercalate_sublist among).trans (List.intercalate_splitOn '/' ▸ .refl cs)
  have back (css : List (List Char)) : (css.map String.ofList).map String.toList = css := by simp
  have parts : (ns.map String.toList).Sublist (p.text.toList.splitOn '/') := by
    have among := (sub.trans List.filter_sublist).map String.toList
    rwa [Path.parts, back] at among
  by_cases absolute : p.IsAbsolute
  case neg => simpa [ofNames, absolute] using spelt parts
  case pos =>
    obtain ⟨cs, eq⟩ := List.head?_eq_some_iff.mp absolute
    have split : ('/' :: cs).splitOn '/' = [] :: cs.splitOn '/' := splitOn_append [] cs
    rw [eq, split] at parts
    have parts : (ns.map String.toList).Sublist (cs.splitOn '/') := by
      rcases List.sublist_cons_iff.mp parts with parts | ⟨rest, empty, _⟩
      · exact parts
      · obtain ⟨x, mem, none⟩ := List.mem_map.mp (empty ▸ List.mem_cons_self)
        exact absurd (String.toList_eq_nil_iff.mp none) (named x mem).not_empty
    rw [eq, ofNames, decide_eq_true absolute, if_pos rfl, String.toList_append]
    exact (spelt parts).cons_cons '/'

end Shorter

end AirRelease.Path
