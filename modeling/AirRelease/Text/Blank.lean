namespace AirRelease.Text

-- The Unicode property `White_Space`.
def isBlank (c : Char) : Bool :=
  let n := c.toNat
  (9 ≤ n && n ≤ 13) || n = 0x20 || n = 0x85 || n = 0xa0 || n = 0x1680 ||
  (0x2000 ≤ n && n ≤ 0x200a) || n = 0x2028 || n = 0x2029 || n = 0x202f || n = 0x205f || n = 0x3000

-- The Unicode category `Cc`.
def isControl (c : Char) : Bool :=
  let n := c.toNat
  n < 0x20 || (0x7f ≤ n && n < 0xa0)

def trimLeft (cs : List Char) : List Char :=
  cs.dropWhile isBlank

def trim (cs : List Char) : List Char :=
  (trimLeft (trimLeft cs).reverse).reverse

theorem trimLeft_of_head {c : Char} (h : isBlank c = false) (cs : List Char) :
    trimLeft (c :: cs) = c :: cs := by
  simp [trimLeft, h]

theorem trimLeft_trimLeft (cs : List Char) : trimLeft (trimLeft cs) = trimLeft cs := by
  induction cs with
  | nil => rfl
  | cons c rest ih => cases h : isBlank c <;> simp_all [trimLeft]

theorem trimLeft_eq_self_of_head? {cs : List Char} (h : ∀ c, cs.head? = some c → isBlank c = false) :
    trimLeft cs = cs := by
  cases cs with
  | nil => rfl
  | cons c rest => exact trimLeft_of_head (h c rfl) rest

theorem isBlank_head?_trimLeft {cs : List Char} {c : Char} (h : (trimLeft cs).head? = some c) :
    isBlank c = false := by
  induction cs with
  | nil => cases h
  | cons d rest ih => cases g : isBlank d <;> simp_all [trimLeft]

-- What is trimmed on the right keeps its head.
theorem trimLeft_reverse_trimLeft {cs : List Char} (h : trimLeft cs = cs) :
    trimLeft (trimLeft cs.reverse).reverse = (trimLeft cs.reverse).reverse := by
  apply trimLeft_eq_self_of_head?
  intro c hc
  have ⟨t, (ht : t ++ trimLeft cs.reverse = cs.reverse)⟩ :=
    @List.dropWhile_suffix _ cs.reverse isBlank
  have hcs : cs = (trimLeft cs.reverse).reverse ++ t.reverse := by
    rw [← List.reverse_append, ht, List.reverse_reverse]
  refine @isBlank_head?_trimLeft cs c ?_
  rw [h, hcs, List.head?_append, hc]
  rfl

theorem trim_trim (cs : List Char) : trim (trim cs) = trim cs := by
  unfold trim
  rw [trimLeft_reverse_trimLeft (trimLeft_trimLeft cs), List.reverse_reverse, trimLeft_trimLeft]

-- The pieces between blanks.
def words (cs : List Char) : List (List Char) :=
  go [] cs
where
  go (word : List Char) : List Char → List (List Char)
    | [] => close word []
    | c :: rest => if isBlank c then close word (go [] rest) else go (c :: word) rest
  close (word : List Char) (rest : List (List Char)) : List (List Char) :=
    if word = [] then rest else word.reverse :: rest

theorem words_nil : words [] = [] :=
  rfl

end AirRelease.Text
