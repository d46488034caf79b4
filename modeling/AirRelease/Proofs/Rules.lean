namespace AirRelease

-- A rule holds of its answer. One that does not apply has none.
inductive FirstOf {α : Type} : List (α → Prop) → α → Prop
  | applies {rule : α → Prop} {rules : List (α → Prop)} {a : α} (gives : rule a) :
    FirstOf (rule :: rules) a
  | passes {rule : α → Prop} {rules : List (α → Prop)} {a : α} (silent : ∀ b, ¬rule b)
      (later : FirstOf rules a) :
    FirstOf (rule :: rules) a

namespace FirstOf

variable {α : Type} {rules : List (α → Prop)} {a b : α}

theorem unique (single : ∀ rule ∈ rules, ∀ a b, rule a → rule b → a = b) (first : FirstOf rules a)
    (other : FirstOf rules b) : a = b := by
  induction first with
  | applies gives =>
    cases other with
    | applies gives' => exact single _ List.mem_cons_self _ _ gives gives'
    | passes silent _ => exact absurd gives (silent _)
  | passes silent _ ih =>
    cases other with
    | applies gives => exact absurd gives (silent _)
    | passes _ later => exact ih (fun rule mem => single rule (List.mem_cons_of_mem _ mem)) later

theorem exists_rule (first : FirstOf rules a) : ∃ rule ∈ rules, rule a := by
  induction first with
  | applies gives => exact ⟨_, List.mem_cons_self, gives⟩
  | passes _ _ ih =>
    obtain ⟨rule, mem, gives⟩ := ih
    exact ⟨rule, List.mem_cons_of_mem _ mem, gives⟩

theorem eq_iff (first : FirstOf rules a) (single : ∀ rule ∈ rules, ∀ a b, rule a → rule b → a = b) :
    a = b ↔ FirstOf rules b :=
  ⟨fun same => same ▸ first, first.unique single⟩

end FirstOf

end AirRelease
