import AirRelease.Proofs.Yaml.Lead
import AirRelease.Yaml

namespace AirRelease.Yaml

open Token (lead isProperty)

variable {s s' : Source} {p : Properties} {ts : List Token} {k text : String} {plain : Bool} {tag : Option String}
  {fuel : Nat}

-- What is put in front of a node does not change the scalar that it is.
theorem lead_of_properties? (read : properties? s = some (p, s')) : lead s'.tokens = lead s.tokens := by
  unfold properties? at read
  split at read
  case h_1 here =>
    obtain ⟨_, _, eq⟩ := Option.map_eq_some_iff.mp read
    cases eq
    rw [here, Token.lead_property rfl, Token.lead_property rfl]
    rfl
  case h_2 here =>
    obtain ⟨_, _, eq⟩ := Option.map_eq_some_iff.mp read
    cases eq
    rw [here, Token.lead_property rfl, Token.lead_property rfl]
    rfl
  case h_3 a rest _ here =>
    cases read
    rw [here, Token.lead_property rfl]
    rfl
  case h_4 t rest _ here =>
    obtain ⟨_, _, eq⟩ := Option.map_eq_some_iff.mp read
    cases eq
    rw [here, Token.lead_property rfl]
    rfl
  case h_5 =>
    cases read
    rfl

theorem lead_of_readContent (read : (readContent .member p s fuel).1 = .scalar text plain tag) :
    text = "" ∨ lead s.tokens = some text := by
  cases fuel with
  | zero => cases read
  | succ fuel =>
    rw [readContent.eq_def] at read
    dsimp only at read
    split at read
    case h_3 here =>
      cases read
      exact .inr (by rw [here]; rfl)
    case h_10 =>
      split at read <;> cases read
      exact .inl rfl
    all_goals cases read

theorem lead_of_readNode (unnamed : s.anchors = [])
    (read : (readNode .member s fuel).1 = .scalar text plain tag) : text = "" ∨ lead s.tokens = some text := by
  cases fuel with
  | zero => cases read
  | succ fuel =>
    rw [readNode] at read
    split at read
    case h_1 => simp [Source.aliased?, unnamed] at read
    case h_2 =>
      split at read
      case h_1 => cases read
      case h_2 p opened properties =>
        have same : (opened.openNode p.anchor).tokens = opened.tokens := by cases p.anchor <;> rfl
        rw [← lead_of_properties? properties, ← same]
        exact lead_of_readContent read

-- A value that is a scalar is empty or the scalar that its tokens begin with.
theorem lead_of_readBlockPart (unnamed : s.anchors = [])
    (read : (readBlockPart s fuel).1 = .scalar text plain tag) : text = "" ∨ lead s.tokens = some text := by
  cases fuel with
  | zero => cases read
  | succ fuel =>
    rw [readBlockPart] at read
    split at read
    case h_1 => cases read
    case h_2 | h_3 | h_4 =>
      cases read
      exact .inl rfl
    case h_5 => exact lead_of_readNode unnamed read

theorem readNode_blockMapping (h : List (String × String)) (ts : List Token) (fuel : Nat) :
    readNode .block ⟨.blockMappingStart :: ts, h, [], []⟩ (fuel + 2) =
      (readBlockMembers ⟨ts, h, [], []⟩ fuel).map mapping := by
  have closed (r : Read Yaml) : (r.1, r.2.map fun s => s.closeNode none 0 r.1) = r := by
    obtain ⟨y, _ | s⟩ := r <;> rfl
  exact closed ((readBlockMembers ⟨ts, h, [], []⟩ fuel).map mapping)

theorem readBlockMembers_key (h : List (String × String)) (k : String) (ts : List Token) (fuel : Nat) :
    ∃ members, (readBlockMembers ⟨.key :: .scalar k true :: .value :: ts, h, [], []⟩ (fuel + 5)).1 =
      (.scalar k true none, (readBlockPart ⟨ts, h, [], []⟩ (fuel + 3)).1) :: members := by
  have value : readBlockMembers ⟨.key :: .scalar k true :: .value :: ts, h, [], []⟩ (fuel + 5) =
      readBlockValue (.scalar k true none) ⟨.value :: ts, h, [], []⟩ (fuel + 4) := rfl
  rw [value, readBlockValue]
  dsimp only [Source.rest]
  split
  case h_1 v eq => exact ⟨[], by rw [eq]⟩
  case h_2 v s eq => exact ⟨_, by rw [eq, Read.map]⟩

-- A text whose tokens begin with a mapping and a key is a mapping whose first member has this key. The value
-- there is no scalar but an empty one or the one that the tokens after the key begin with.
theorem ofTokens_member (k : String) (ts : List Token) : ∃ v members,
    (ofTokens (.blockMappingStart :: .key :: .scalar k true :: .value :: ts)).1 =
        .mapping ((.scalar k true none, v) :: members) ∧
      ∀ text plain tag, v = .scalar text plain tag → text = "" ∨ lead ts = some text := by
  let tokens : List Token := .blockMappingStart :: .key :: .scalar k true :: .value :: ts
  obtain ⟨members, read⟩ := readBlockMembers_key standardHandles k ts (5 * ts.length + 18)
  have start : (ofTokens tokens).1 =
      (readNode .block ⟨tokens, standardHandles, [], []⟩ (5 * tokens.length + 5)).1 := rfl
  have fuel : 5 * tokens.length + 5 = 5 * ts.length + 18 + 5 + 2 := by simp only [tokens, List.length_cons]; omega
  rw [start, fuel, readNode_blockMapping, Read.map, read]
  exact ⟨_, members, rfl, fun text plain tag => lead_of_readBlockPart rfl⟩

end AirRelease.Yaml
