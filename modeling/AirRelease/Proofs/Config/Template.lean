import AirRelease.Config.Project
import AirRelease.Proofs.Config.Account
import AirRelease.Proofs.Directory.Unchanged
import AirRelease.Proofs.Files.ReadBack
import AirRelease.Proofs.Text.Width
import AirRelease.Proofs.Yaml.Member

namespace AirRelease.Config

open Yaml Token

variable {e : Email} {config : Config}

section Tokens

def heading : List Char :=
  " Account that owns the apps you create (overridden by OTAFLOW_ACCOUNT)".toList

-- The template after the number sign of the comment that follows the account, with its gaps as line breaks and
-- spaces.
def settings : List Char :=
  " Where apps and release histories are stored".toList ++ '\n' ::
    ("data_dir".toList ++ ':' :: ' ' :: (".otaflow/data".toList ++ '\n' :: '\n' ::
      ('#' :: " How long to wait for another command working on the same deployment".toList ++ '\n' ::
        ("lock_timeout".toList ++ ':' :: ' ' :: ("30s".toList ++ '\n' :: '\n' ::
          ('#' :: " Deployments created with every new app".toList ++ '\n' ::
            ("default_deployments".toList ++ ':' :: '\n' :: ' ' :: ' ' :: '-' :: ' ' :: ("Staging".toList ++
              (List.replicate 1 '\n' ++ (List.replicate 2 ' ' ++ '-' :: ' ' :: ("Production".toList ++
                (List.replicate 1 '\n' ++ (List.replicate 0 ' ' ++ [])))))))))))))

theorem toList_template (account : String) : (template account).toList =
    ('#' :: heading ++ '\n' :: "account: ".toList) ++ (account.toList ++ '\n' :: '\n' :: '#' :: settings) := by
  unfold template
  simp only [String.toList_append, List.append_assoc]
  rw [← List.append_assoc, ← List.append_assoc ('#' :: heading)]
  exact congr (congrArg HAppend.hAppend (by decide +kernel)) (congrArg (account.toList ++ ·) (by decide +kernel))

theorem allowed_template (account : String) :
    (template account).toList.all isAllowed = account.toList.all isAllowed := by
  have front : ('#' :: heading ++ '\n' :: "account: ".toList).all isAllowed := by decide +kernel
  have back : ('\n' :: '\n' :: '#' :: settings).all isAllowed := by decide +kernel
  rw [toList_template, List.all_append, front, Bool.true_and, List.all_append, back, Bool.and_true]

def settingTokens : List Token :=
  [key, scalar "data_dir" true, value, scalar ".otaflow/data" true, key, scalar "lock_timeout" true, value,
    scalar "30s" true, key, scalar "default_deployments" true, value, blockSequenceStart, blockEntry,
    scalar "Staging" true, blockEntry, scalar "Production" true, blockEnd, blockEnd, streamEnd]

-- Line by line: two members with a comment behind each, then the sequence up to the end of the text.
theorem gives_settings : Gives ('#' :: settings) 0 0 [-1] true (· = settingTokens) := by
  refine .comment (by decide +kernel) ?_
  refine .ofMember (by decide +kernel) (by decide +kernel) (by decide +kernel) ?_
  refine .ofMember (by decide +kernel) (by decide +kernel) (by decide +kernel) ?_
  refine .ofKey (by decide +kernel) rfl (by decide) ?_
  refine .newline (.space (.space (.ofEntry rfl (by decide) (by decide) (.space ?_))))
  refine .ofWord (by decide +kernel) (by decide) (by decide) (by decide) (by decide)
    (fun d head => by cases head; rfl) ?_
  refine .ofEntry rfl (by decide) (by decide) (.space ?_)
  refine .ofWord (by decide +kernel) (by decide) (by decide) (by decide) (by decide) nofun ?_
  exact .ofNil (by decide) rfl

variable {text : String} {P : List Token → Prop}

-- The tokens of the template are those of its account line and its settings.
theorem ofText_template (allowed : text.toList.all isAllowed)
    (gives : Gives (text.toList ++ '\n' :: '\n' :: '#' :: settings) 9 0 [-1] false P) :
    ∃ ts, Token.ofText (template text) = blockMappingStart :: key :: scalar "account" true :: value :: ts ∧
      P ts := by
  have split : (template text).toList = '#' :: heading ++ '\n' ::
      ("account".toList ++ ':' :: ' ' :: (text.toList ++ '\n' :: '\n' :: '#' :: settings)) := by
    have colon : "account: ".toList = "account".toList ++ [':', ' '] := by decide +kernel
    rw [toList_template, colon]
    simp only [List.append_assoc, List.cons_append, List.nil_append]
  have whole : (template text).toList.all isAllowed := (allowed_template text).trans allowed
  refine ofText_of_gives (P := fun all => ∃ ts, all = _ :: _ :: _ :: _ :: ts ∧ P ts) split whole
    (by decide +kernel) ?_
  refine .ofKey (by decide +kernel) rfl (by decide) (.space ?_)
  exact fun line index n fuel passed enough => ⟨_, rfl, gives line index n fuel passed enough⟩

end Tokens

section Reading

variable {text : String}

-- An address that stands for itself is read back, along with the settings.
theorem ofText_of_stands (canonical : e.Canonical) (allowed : e.text.toList.all isAllowed)
    (stands : Stands e.text.toList) : ofText (template e.text) = .ok { default with account := some e } := by
  have gives : Gives (e.text.toList ++ '\n' :: '\n' :: '#' :: settings) 9 0 [-1] false
      (· = Token.scalar e.text true :: settingTokens) := by
    refine .ofWord (k := 1) (m := 0) stands (by decide) (by decide) (by decide) nofun
      (fun d head => by cases head; rfl) ?_
    intro line index n fuel passed enough
    rw [String.ofList_toList, gives_settings line index n fuel passed enough]
  obtain ⟨_, tokens, rfl⟩ := ofText_template allowed gives
  have tree : Yaml.ofText (template e.text) = (.mapping [
      (.scalar "account" true none, .scalar e.text true none),
      (.scalar "data_dir" true none, .scalar ".otaflow/data" true none),
      (.scalar "lock_timeout" true none, .scalar "30s" true none),
      (.scalar "default_deployments" true none,
        .sequence [.scalar "Staging" true none, .scalar "Production" true none])], true) := by
    rw [Yaml.ofText, tokens]
    rfl
  rw [ofText_eq, tree, ofYaml, List.foldlM_cons, Draft.read_account, readAccount_of_canonical canonical]
  rfl

-- An address that is read back stands for itself.
theorem stands_of_ofText (settled : ∀ c ∈ e.text.toList, Text.Settled c)
    (read : ofText (template e.text) = .ok config) (account : config.account = some e) :
    e.text.toList.all isAllowed ∧ Stands e.text.toList := by
  have made : ofYaml (Yaml.ofText (template e.text)).1 = .ok config := by
    rw [ofText_eq] at read
    obtain ⟨_, made, ended⟩ := bind_eq_ok.mp read
    rw [made, (ite_else_error_eq_ok.mp ended).2]
  by_cases allowed : e.text.toList.all isAllowed
  case neg =>
    have none : Token.ofText (template e.text) = [] :=
      ofText_of_forbidden ((allowed_template e.text).trans (Bool.eq_false_of_not_eq_true allowed))
    rw [Yaml.ofText, none] at made
    cases made
  case pos =>
    refine ⟨allowed, ?_⟩
    have unquoted (single : Bool) : Quoted.mark single ∉ settings := by
      cases single <;> decide +kernel
    obtain ⟨ts, tokens, read_as⟩ := ofText_template allowed (Gives.value settled (by decide) unquoted
      fun line index n fuel passed enough => by rw [gives_settings line index n fuel passed enough]; rfl)
    obtain ⟨v, members, tree, scalar⟩ := ofTokens_member "account" ts
    rw [Yaml.ofText, tokens, tree] at made
    have value := readAccount_of_ofYaml made
    rw [account] at value
    obtain ⟨text, plain, tag, rfl, address⟩ := ofText_of_readAccount value
    rcases scalar text plain tag rfl with rfl | found
    · exact absurd address (Email.ofText_of_blank nofun)
    rcases read_as text found with ⟨stands, _⟩ | blank | narrow
    · exact stands
    · exact absurd address (Email.ofText_of_blank blank)
    · exact absurd address (Email.ofText_of_narrow narrow)

-- The configuration that the template is read as.
theorem ofText_template_iff (read : Email.ofText text = .ok e) :
    ofText (template e.text) = .ok { default with account := some e } ↔
      e.text.toList.all isAllowed ∧ Stands e.text.toList :=
  ⟨fun same => stands_of_ofText (Email.settled_of_ofText read) same rfl,
    fun ⟨allowed, stands⟩ => ofText_of_stands (Email.canonical_of_ofText read) allowed stands⟩

-- An address has at least three characters and no blanks.
theorem stands_iff (read : Email.ofText text = .ok e) : Stands e.text.toList ↔
    (∀ c, e.text.toList.head? = some c → c ∉ indicators) ∧ e.text.toList.getLast? ≠ some ':' := by
  have settled := Email.settled_of_ofText read
  obtain ⟨user, domain, split, user_filled, domain_filled⟩ := Email.parts_of_ofText read
  have solid : ∀ d ∈ e.text.toList, isSolid d := fun d mem => isSolid_of_filled (settled d mem).filled
  obtain ⟨first, user, rfl⟩ := List.exists_cons_of_ne_nil user_filled
  rw [Stands, isWord_iff]
  refine and_congr_left fun _ => ?_
  constructor
  · rintro ⟨_, _, eq, other, _⟩ c head
    rw [eq] at head
    cases head
    exact other
  · intro other
    refine ⟨first, user ++ '@' :: domain, split, other first (by rw [split]; rfl), fun _ => by simp, solid⟩

end Reading

section Disk

variable {directory path : Path} {account : Option String} {force : Bool} {h h' : Host}

-- A run that ends well has written the template of an address that can be read.
theorem written_of_init (ran : (init directory account force : StateM Host _) h = (.ok path, h')) :
    ∃ e, Email.ofText (account.getD placeholder) = .ok e ∧ h'.base = h.base ∧
      h.files.write h.base path (template e.text).toUTF8 = .ok h'.files := by
  have asked : (Disk.fileExists (directory.join fileName) : StateM Host _) h =
    ((h.files.node h.base (directory.join fileName)).isOk, h) := rfl
  have write (text : String) : (Disk.write (directory.join fileName) (template text).toUTF8 : StateM Host _) h =
    Host.attempt (·.write · (directory.join fileName) (template text).toUTF8) h := rfl
  rw [init, bind_apply, asked] at ran
  split at ran
  case isTrue => cases ran
  cases read : account.mapM Email.ofText with
  | error e =>
    rw [read] at ran
    cases ran
  | ok email =>
    rw [read] at ran
    simp only [bind_apply, write] at ran
    rcases Host.attempt_cases (·.write · (directory.join fileName)
      (template (email.elim placeholder (·.text))).toUTF8) h with ⟨files, written, eq⟩ | ⟨_, _, eq⟩
    case inr =>
      rw [eq] at ran
      cases ran
    case inl =>
      rw [eq] at ran
      cases ran
      cases account with
      | none =>
        cases read
        exact ⟨⟨placeholder⟩, by decide +kernel, rfl, written⟩
      | some text =>
        obtain ⟨e, address, same⟩ := map_eq_ok.mp (show (Email.ofText text).map some = .ok email from read)
        cases same
        exact ⟨e, address, rfl, written⟩

theorem load_eq_ok_iff {text : String} (distinct : h.files.Distinct) (base : h.files.kind h.base = some .directory)
    (written : h.files.write h.base path text.toUTF8 = .ok h'.files) (there : h'.base = h.base) :
    (load path : StateM Host _) h' = (.ok config, h') ↔ ofText text = .ok config := by
  have bytes := FileTree.read_of_write distinct base written
  have loaded : (load path : StateM Host _) h' = ((ofText text).mapError .unreadable, h') := by
    rw [load, bind_apply, Directory.readText_apply, there, bytes, Directory.textOf]
    simp only [Directory.fromUTF8?_toUTF8]
    rfl
  rw [loaded, Prod.mk.injEq, mapError_eq_ok]
  exact and_iff_left rfl

-- What is written for an account is read back just if the address means nothing else in YAML.
theorem load_init_iff (distinct : h.files.Distinct) (base : h.files.kind h.base = some .directory)
    (ran : (init directory account force : StateM Host _) h = (.ok path, h')) :
    ∃ e, Email.ofText (account.getD placeholder) = .ok e ∧
      ((load path : StateM Host _) h' = (.ok ⟨some e, ⟨".otaflow/data"⟩, .ofSeconds 30,
          [⟨"Staging", by decide⟩, ⟨"Production", by decide⟩]⟩, h') ↔
        (∀ c ∈ e.text.toList, isAllowed c) ∧ (∀ c, e.text.toList.head? = some c → c ∉ indicators) ∧
          e.text.toList.getLast? ≠ some ':') := by
  obtain ⟨e, address, there, written⟩ := written_of_init ran
  refine ⟨e, address, ?_⟩
  rw [load_eq_ok_iff distinct base written there, ← stands_iff address, ← List.all_eq_true]
  exact ofText_template_iff address

theorem load_init_iff_bare : ∃ h', (init ⟨"."⟩ (some "Dev@Example.com") false : StateM Host _) bare =
      (.ok ⟨"./otaflow.yml"⟩, h') ∧
    (load ⟨"./otaflow.yml"⟩ : StateM Host _) h' = (.ok ⟨some ⟨"dev@example.com"⟩, ⟨".otaflow/data"⟩, .ofSeconds 30,
      [⟨"Staging", by decide⟩, ⟨"Production", by decide⟩]⟩, h') := by
  let run : StateM Host _ := init ⟨"."⟩ (some "Dev@Example.com") false
  have ran : run bare = (.ok ⟨"./otaflow.yml"⟩, (run bare).2) := Prod.ext (by decide +kernel) rfl
  obtain ⟨e, address, loaded⟩ := load_init_iff on_bare.holds.distinct rfl ran
  have lowered : Email.ofText "Dev@Example.com" = .ok ⟨"dev@example.com"⟩ := by decide +kernel
  cases lowered.symm.trans address
  have allowed : "dev@example.com".toList.all isAllowed := by decide +kernel
  refine ⟨(run bare).2, ran, loaded.mpr ⟨List.all_eq_true.mp allowed, fun c head => ?_, by decide +kernel⟩⟩
  have first : "dev@example.com".toList.head? = some 'd' := by decide +kernel
  cases first.symm.trans head
  decide

-- The number sign makes a comment of the address, so that no account is read.
theorem not_loaded_of_init : ∃ e h', Email.ofText "#dev@example.com" = .ok e ∧
    (init ⟨"."⟩ (some "#dev@example.com") false : StateM Host _) bare = (.ok ⟨"./otaflow.yml"⟩, h') ∧
    ∀ config, (load ⟨"./otaflow.yml"⟩ : StateM Host _) h' = (.ok config, h') → config.account ≠ some e := by
  let run : StateM Host _ := init ⟨"."⟩ (some "#dev@example.com") false
  have ran : run bare = (.ok ⟨"./otaflow.yml"⟩, (run bare).2) := Prod.ext (by decide +kernel) rfl
  obtain ⟨e, address, there, written⟩ := written_of_init ran
  refine ⟨e, (run bare).2, address, ran, fun config loaded account => ?_⟩
  rw [load_eq_ok_iff on_bare.holds.distinct rfl written there] at loaded
  have stands := (stands_of_ofText (Email.settled_of_ofText address) loaded account).2
  have kept : Email.ofText "#dev@example.com" = .ok ⟨"#dev@example.com"⟩ := by decide +kernel
  cases kept.symm.trans address
  exact absurd stands.1 (by decide +kernel)

end Disk

end AirRelease.Config
