import Mathlib
import TieredStore.Settings.Environment
import TieredStore.Settings.Layering

/-!
# What sources give for a setting

What a file and the environment give for a setting is said here of their entries as they are
written, without reading variables or laying entries over one another.

An entry of a file gives its value for the setting that it names, in letters of any case. A variable
does so with the name of the setting behind the mark `jitspill__`, and its text stands for a truth
value, an integer, another number, or itself. Of several entries for a setting the last one counts.

A name may go on behind that of the setting, by dots and subscripts, and in the environment by
doubled underscores. Then the setting is a table or a list.

* `Environment.Stands`, `Environment.rawValue_eq_iff`: what a text stands for is what is read from
  it.
* `RawFields.Defines`, `RawFields.Gives`: entries of a file, and all of them.
* `RawFields.exists_defines_iff`: an entry for a setting is laid over that setting.
* `Environment.Defines`, `Environment.Gives`: variables, and all of them.
* `Environment.gives_settings`: the entries that are read from variables give what the variables
  give.
-/

namespace TieredStore

namespace RawValue

/-- The value that the first source gives that gives one. -/
def First : List (RawValue → Prop) → RawValue → Prop
  | [], _ => False
  | gives :: sources, v => gives v ∨ (∀ w, ¬gives w) ∧ First sources v

theorem first_concat (sources : List (RawValue → Prop)) (gives : RawValue → Prop) :
    First (sources ++ [gives]) = fun v => First sources v ∨ (∀ w, ¬First sources w) ∧ gives v := by
  induction sources with
  | nil => simp [First]
  | cons source sources ih =>
    funext v
    rw [List.cons_append, First, ih]
    by_cases hsource : ∃ w, source w
    · obtain ⟨w, hw⟩ := hsource
      have hnot : ¬∀ w, ¬source w := fun h => h w hw
      simp [First, hnot]
    · rw [not_exists] at hsource
      simp [First, hsource]

/-- Sources that give nothing can be left out. -/
theorem first_filterMap {α β : Type} {f : α → Option β} {gives : β → RawValue → Prop}
    {gives' : α → RawValue → Prop} (h : ∀ a v, gives' a v ↔ ∃ b, f a = some b ∧ gives b v)
    (as : List α) : First ((as.filterMap f).map gives) = First (as.map gives') := by
  induction as with
  | nil => rfl
  | cons a as ih =>
    funext v
    cases hf : f a with
    | none =>
      have hnot : ∀ v, ¬gives' a v := fun v hv => by simp [h, hf] at hv
      simp [hf, ih, First, hnot]
    | some b =>
      have hgives : gives' a = gives b := funext fun v => by simp [h, hf]
      simp [hf, ih, First, hgives]

/-- There is one value if each source gives at most one. -/
theorem First.eq {sources : List (RawValue → Prop)}
    (h : ∀ gives ∈ sources, ∀ v w, gives v → gives w → v = w) {v w : RawValue}
    (hv : First sources v) (hw : First sources w) : v = w := by
  induction sources with
  | nil => exact hv.elim
  | cons gives sources ih =>
    rw [List.forall_mem_cons] at h
    obtain hv | ⟨hnone, hv⟩ := hv
    · obtain hw | ⟨hnone, -⟩ := hw
      · exact h.1 v w hv hw
      · exact absurd hv (hnone v)
    · obtain hw | ⟨-, hw⟩ := hw
      · exact absurd hw (hnone w)
      · exact ih h.2 hv hw

theorem First.exists {sources : List (RawValue → Prop)} {v : RawValue} (h : First sources v) :
    ∃ gives ∈ sources, gives v := by
  induction sources with
  | nil => exact h.elim
  | cons gives sources ih =>
    obtain h | ⟨-, h⟩ := h
    · exact ⟨gives, List.mem_cons_self, h⟩
    · obtain ⟨gives', hmem, hv⟩ := ih h
      exact ⟨gives', List.mem_cons_of_mem _ hmem, hv⟩

/-! ### Texts -/

/-- Some digits, and no other characters. -/
def AreDigits (cs : List Char) : Prop := cs ≠ [] ∧ ∀ c ∈ cs, c.isDigit

theorem natOfText?_eq_some_iff {s : String} {n : Nat} : natOfText? s = some n ↔
    ∃ digits, (s.toList = digits ∨ s.toList = '+' :: digits) ∧ AreDigits digits ∧
      Decimal.ofDigits digits = n := by
  have hread (digits : List Char) :
      (if digits.isEmpty || !digits.all Char.isDigit then none
        else some (Decimal.ofDigits digits)) =
        some n ↔ AreDigits digits ∧ Decimal.ofDigits digits = n := by
    rw [Option.ite_none_left_eq_some, Option.some.injEq, AreDigits]
    simp
  rw [natOfText?]
  generalize s.toList = cs
  split
  next cs =>
    rw [hread]
    constructor
    · exact fun h => ⟨cs, .inr rfl, h⟩
    · rintro ⟨digits, rfl | hcs, h⟩
      · -- A plus sign is no digit.
        exact absurd (h.1.2 '+' List.mem_cons_self) (by decide)
      · cases hcs
        exact h
  next hplus =>
    rw [hread]
    constructor
    · exact fun h => ⟨cs, .inl rfl, h⟩
    · rintro ⟨digits, rfl | hcs, h⟩
      · exact h
      · exact absurd hcs (hplus digits)

end RawValue

namespace Environment

open RawValue

/-- A text is an integer in decimal digits, with a sign or without. -/
def Spells (text : String) (n : Int) : Prop :=
  ∃ digits, AreDigits digits ∧
    ((text.toList = digits ∨ text.toList = '+' :: digits) ∧ n = Decimal.ofDigits digits ∨
      text.toList = '-' :: digits ∧ n = -Decimal.ofDigits digits)

theorem intOfText?_eq_some_iff {s : String} {n : Int} : intOfText? s = some n ↔ Spells s n := by
  rw [intOfText?, Spells]
  split
  next cs hcs =>
    rw [Option.bind_eq_some_iff]
    constructor
    · rintro ⟨m, hm, hn⟩
      obtain ⟨hplus, hn⟩ := Option.ite_none_left_eq_some.1 hn
      cases hn
      obtain ⟨digits, hdigits, hall, rfl⟩ := natOfText?_eq_some_iff.1 hm
      rw [String.toList_ofList] at hdigits
      obtain rfl | rfl := hdigits
      · exact ⟨cs, hall, .inr ⟨hcs, rfl⟩⟩
      · exact absurd rfl hplus
    · rintro ⟨digits, hall, ⟨hdigits | hdigits, rfl⟩ | ⟨hdigits, rfl⟩⟩
      · -- A minus sign is no digit, and no plus sign.
        exact absurd (hall.2 '-' (by rw [← hdigits, hcs]; exact List.mem_cons_self)) (by decide)
      · rw [hcs] at hdigits
        cases hdigits
      · rw [hcs] at hdigits
        cases hdigits
        refine ⟨_, natOfText?_eq_some_iff.2 ⟨cs, .inl String.toList_ofList, hall, rfl⟩, ?_⟩
        refine Option.ite_none_left_eq_some.2 ⟨fun hplus => ?_, rfl⟩
        exact absurd (hall.2 '+' (List.mem_of_head? hplus)) (by decide)
  next hminus =>
    rw [Option.map_eq_some_iff]
    constructor
    · rintro ⟨m, hm, rfl⟩
      obtain ⟨digits, hdigits, hall, rfl⟩ := natOfText?_eq_some_iff.1 hm
      exact ⟨digits, hall, .inl ⟨hdigits, rfl⟩⟩
    · rintro ⟨digits, hall, ⟨hdigits, rfl⟩ | ⟨hdigits, rfl⟩⟩
      · exact ⟨_, natOfText?_eq_some_iff.2 ⟨digits, hdigits, hall, rfl⟩, rfl⟩
      · exact absurd hdigits (hminus digits)

/-- A text is an integer of 64 bits. -/
def SpellsInt64 (text : String) (n : Int) : Prop := Spells text n ∧ -2 ^ 63 ≤ n ∧ n < 2 ^ 63

/-- What the text of a variable stands for. What comes earlier here comes first. -/
inductive Stands (text : String) : RawValue → Prop where
  /-- A truth value, in letters of any case. -/
  | truth {value : Bool} (htruth : text.toLower = toString value) : Stands text (.bool value)
  /-- An integer of 64 bits. -/
  | integer {n : Int} (htruth : ∀ value : Bool, text.toLower ≠ toString value)
    (hinteger : SpellsInt64 text n) : Stands text (.int n)
  /-- Another number. -/
  | number {x : Binary64} (htruth : ∀ value : Bool, text.toLower ≠ toString value)
    (hinteger : ∀ n, ¬SpellsInt64 text n) (hnumber : floatOfText? text = some x) :
    Stands text (.float x)
  /-- Itself. -/
  | itself (htruth : ∀ value : Bool, text.toLower ≠ toString value)
    (hinteger : ∀ n, ¬SpellsInt64 text n) (hnumber : floatOfText? text = none) :
    Stands text (.text text)

theorem filter_intOfText?_eq_some_iff {s : String} {n : Int} :
    (intOfText? s).filter isInt64 = some n ↔ SpellsInt64 s n := by
  rw [Option.filter_eq_some_iff, intOfText?_eq_some_iff, SpellsInt64, isInt64]
  simp

/-- What is read from a text is what it stands for, and nothing else. -/
theorem rawValue_eq_iff {s : String} {v : RawValue} : rawValue s = v ↔ Stands s v := by
  -- Both sides ask the same questions in the same order.
  have hinteger : (∀ n, ¬SpellsInt64 s n) ↔ (intOfText? s).filter isInt64 = none := by
    simp only [← filter_intOfText?_eq_some_iff, Option.eq_none_iff_forall_ne_some]
  have htruth : (∀ value : Bool, s.toLower ≠ toString value) ↔
      s.toLower ≠ "true" ∧ s.toLower ≠ "false" := by
    rw [Bool.forall_bool, and_comm]
    rfl
  constructor
  · rintro rfl
    rw [rawValue]
    split_ifs with htrue hfalse
    · exact .truth htrue
    · exact .truth hfalse
    · cases hn : (intOfText? s).filter isInt64 with
      | some n => exact .integer (htruth.2 ⟨htrue, hfalse⟩) (filter_intOfText?_eq_some_iff.1 hn)
      | none =>
        cases hx : floatOfText? s with
        | some x => exact .number (htruth.2 ⟨htrue, hfalse⟩) (hinteger.2 hn) hx
        | none => exact .itself (htruth.2 ⟨htrue, hfalse⟩) (hinteger.2 hn) hx
  · rintro (@⟨value, hvalue⟩ | ⟨hnot, hn⟩ | ⟨hnot, hnone, hx⟩ | ⟨hnot, hnone, hx⟩)
    · rw [rawValue, hvalue]
      cases value <;> rfl
    · simp [rawValue, htruth.1 hnot, filter_intOfText?_eq_some_iff.2 hn]
    · simp [rawValue, htruth.1 hnot, hinteger.1 hnone, hx]
    · simp [rawValue, htruth.1 hnot, hinteger.1 hnone, hx]

end Environment

/-! ### Names -/

namespace RawFields

/-- What follows a subscript is no longer than the text that it is in. -/
theorem length_of_skipSubscript? {cs rest : List Char} (h : skipSubscript? cs = some rest) :
    rest.length ≤ cs.length := by
  rw [skipSubscript?] at h
  have hdrop (p : Char → Bool) (l : List Char) : (l.dropWhile p).length ≤ l.length :=
    (List.dropWhile_suffix p).length_le
  -- A sign in front, the digits and the blanks are left out, so only less is left.
  split at h
  next cs' hsign =>
  have hsign : cs'.length ≤ cs.length := by
    refine le_trans ?_ (hdrop (fun c => c = ' ' || c = '\t') cs)
    split at hsign
    next heq =>
      cases hsign
      simp [heq]
    next =>
      cases hsign
      exact le_rfl
  dsimp only [Decimal.splitDigits] at h
  split at h
  next rest' heq =>
    obtain ⟨-, hrest⟩ := Option.ite_none_left_eq_some.1 h
    cases hrest
    have hlength := congrArg List.length heq
    have h1 := hdrop (fun c => c = ' ' || c = '\t') (cs'.dropWhile Char.isDigit)
    have h2 := hdrop Char.isDigit cs'
    rw [List.length_cons] at hlength
    omega
  next => cases h

/-- What is made of steps does not start with a name character. -/
theorem takeWhile_of_steps? {bound : Nat} {cs : List Char} {path : List Step}
    (h : steps? bound cs = some path) :
    cs.takeWhile isNameChar = [] ∧ cs.dropWhile isNameChar = cs := by
  unfold steps? at h
  split at h
  · exact ⟨rfl, rfl⟩
  · cases h
  · exact ⟨rfl, rfl⟩
  · exact ⟨rfl, rfl⟩
  · cases h

theorem eq_nil_of_steps? {bound : Nat} {cs : List Char} (h : steps? bound cs = some []) :
    cs = [] := by
  unfold steps? at h
  split at h
  · rfl
  · cases h
  · dsimp only at h
    split at h <;> simp at h
  · split at h <;> simp at h
  · cases h

/-- Any bound will do that is not below the length of the text. -/
theorem steps?_of_length_le {m n : Nat} {cs : List Char} {path : List Step}
    (h : steps? m cs = some path) (hn : cs.length ≤ n) : steps? n cs = some path := by
  fun_induction steps? m cs generalizing n path with
  | case1 => rw [steps?]; exact h
  | case2 => cases h
  | case3 => cases h
  | case4 bound cs name hname =>
    rename_i ih 
    obtain ⟨n, rfl⟩ := Nat.exists_eq_succ_of_ne_zero (Nat.ne_zero_of_lt hn)
    obtain ⟨path, hpath, rfl⟩ := Option.map_eq_some_iff.1 h
    rw [steps?, if_neg hname, ih hpath]
    · rfl
    · exact (List.dropWhile_suffix _).length_le.trans (Nat.le_of_succ_le_succ hn)
  | case5 bound cs rest hrest ih =>
    obtain ⟨n, rfl⟩ := Nat.exists_eq_succ_of_ne_zero (Nat.ne_zero_of_lt hn)
    obtain ⟨path, hpath, rfl⟩ := Option.map_eq_some_iff.1 h
    rw [steps?, hrest]
    dsimp only
    rw [ih hpath]
    · rfl
    · exact (length_of_skipSubscript? hrest).trans (Nat.le_of_succ_le_succ hn)
  | case6 => cases h
  | case7 => cases h

/-- A name that is the name of a setting and not of anything below one. -/
def IsName (key : String) : Prop := key.toList ≠ [] ∧ key.toList.all isNameChar

instance : DecidablePred IsName := fun _ => instDecidableAnd

/-- A name leads from a setting to what is below it exactly if steps follow the name of the setting.
-/
theorem pathOf_eq_iff {key name : String} (hkey : IsName key) {path : List Step} :
    pathOf name = (key, path) ↔
      ∃ tail bound, name.toList = key.toList ++ tail ∧ steps? bound tail = some path := by
  have hchars : ∀ c ∈ key.toList, isNameChar c := List.all_eq_true.1 hkey.2
  constructor
  · intro h
    have hwhole : key.toList.dropWhile isNameChar = [] := List.dropWhile_eq_nil_iff.2 hchars
    have hsplit (cs : List Char) : cs.takeWhile isNameChar ++ cs.dropWhile isNameChar = cs :=
      List.takeWhile_append_dropWhile
    rw [pathOf] at h
    split at h
    next path' hsteps =>
      split_ifs at h with hempty
      · cases h
        have hnil := hsplit key.toList
        rw [hwhole, List.append_nil, List.isEmpty_iff.1 hempty] at hnil
        exact absurd hnil.symm hkey.1
      · cases h
        refine ⟨_, _, ?_, hsteps⟩
        rw [String.toList_ofList, hsplit]
    next hnone =>
      cases h
      rw [hwhole, steps?] at hnone
      cases hnone
  · rintro ⟨tail, bound, hname, hsteps⟩
    obtain ⟨htake, hdrop⟩ := takeWhile_of_steps? hsteps
    rw [pathOf, hname, List.takeWhile_append_of_pos hchars, List.dropWhile_append_of_pos hchars,
      htake, hdrop, List.append_nil, steps?_of_length_le hsteps (by simp)]
    simp [hkey.1]

/-- A text leads from a setting to what is below it. -/
def LeadsBelow (cs : List Char) : Prop := cs ≠ [] ∧ ∃ bound path, steps? bound cs = some path

/-- What an entry of a file says of a setting. -/
inductive Defines (key : String) : String × RawValue → RawValue → Prop where
  /-- The entry has the name of the setting, in letters of any case, and gives its value. -/
  | itself {name : String} {value : RawValue} (hname : name.toLower = key) :
    Defines key (name, value) value
  /-- The name leads below the setting, which is a table or a list then. -/
  | below {name tail : String} {value : RawValue} (hname : name.toLower = key ++ tail)
    (htail : LeadsBelow tail.toList) : Defines key (name, value) (.table [])

/-- What a file gives for a setting: what its last entry says that says anything of it. -/
def Gives (source : List (String × RawValue)) (key : String) : RawValue → Prop :=
  RawValue.First (source.reverse.map (Defines key))

/-- What leads below a setting is not empty. -/
theorem ne_append_of_leadsBelow {name tail : String} (htail : LeadsBelow tail.toList) :
    name ≠ name ++ tail := by
  rw [Ne, ← String.toList_inj, String.toList_append, List.self_eq_append_right]
  exact htail.1

theorem Defines.eq {key : String} {entry : String × RawValue} {v w : RawValue}
    (hv : Defines key entry v) (hw : Defines key entry w) : v = w := by
  cases hv with
  | itself hname =>
    cases hw with
    | itself => rfl
    | below hname' htail => exact absurd (hname.symm.trans hname') (ne_append_of_leadsBelow htail)
  | below hname htail =>
    cases hw with
    | itself hname' => exact absurd (hname'.symm.trans hname) (ne_append_of_leadsBelow htail)
    | below => rfl

/-- What gives something for a setting starts with its name. -/
theorem Gives.exists_prefix {source : List (String × RawValue)} {key : String} {v : RawValue}
    (h : Gives source key v) : ∃ entry ∈ source, key.toList <+: entry.1.toLower.toList := by
  obtain ⟨gives, hgives, hv⟩ := RawValue.First.exists h
  obtain ⟨entry, hentry, rfl⟩ := List.mem_map.1 hgives
  refine ⟨entry, List.mem_reverse.1 hentry, ?_⟩
  cases hv with
  | itself hname => rw [hname]
  | below hname =>
    rw [hname, String.toList_append]
    exact List.prefix_append _ _

/-- An entry that says something of a setting is set at the setting or below it, and only such an
entry is. -/
theorem exists_defines_iff {key : String} (hkey : IsName key) {name : String} {value : RawValue} :
    (∃ v, Defines key (name, value) v) ↔ (pathOf name.toLower).1 = key := by
  constructor
  · rintro ⟨v, hname | ⟨hname, -, bound, path, hpath⟩⟩
    · rw [(pathOf_eq_iff hkey).2 ⟨[], 0, by rw [hname, List.append_nil], rfl⟩]
    · rw [(pathOf_eq_iff hkey).2 ⟨_, bound, by rw [hname, String.toList_append], hpath⟩]
  · intro h
    obtain ⟨tail, bound, hname, hpath⟩ := (pathOf_eq_iff hkey).1 (Prod.ext h rfl)
    by_cases htail : tail = []
    · rw [htail, List.append_nil, String.toList_inj] at hname
      exact ⟨_, .itself hname⟩
    · have hbelow : name.toLower = key ++ String.ofList tail := by
        rw [← String.toList_inj, hname, String.toList_append, String.toList_ofList]
      refine ⟨_, .below hbelow ?_⟩
      rw [String.toList_ofList]
      exact ⟨htail, bound, _, hpath⟩

theorem Gives.eq {source : List (String × RawValue)} {key : String} {v w : RawValue}
    (hv : Gives source key v) (hw : Gives source key w) : v = w := by
  refine RawValue.First.eq (fun gives hgives v w hv hw => ?_) hv hw
  obtain ⟨entry, -, rfl⟩ := List.mem_map.1 hgives
  exact hv.eq hw

end RawFields

namespace Environment

/-- What a variable says of a setting. -/
inductive Defines (key : String) : String × String → RawValue → Prop where
  /-- The variable has the name of the setting, in letters of any case, and its text stands for a
  value. -/
  | itself {name text : String} {value : RawValue} (hname : name.toLower = "jitspill__" ++ key)
    (htext : Stands text value) : Defines key (name, text) value
  /-- The name leads below the setting, which is a table or a list then. -/
  | below {name text tail : String} (hname : name.toLower = "jitspill__" ++ key ++ tail)
    (htail : RawFields.LeadsBelow (dotted tail.toList)) : Defines key (name, text) (.table [])

/-- What the environment gives for a setting: what the last variable says that says anything of it.
-/
def Gives (exported : List (String × String)) (key : String) : RawValue → Prop :=
  RawValue.First (exported.reverse.map (Defines key))

theorem Stands.eq {text : String} {v w : RawValue} (hv : Stands text v) (hw : Stands text w) :
    v = w :=
  (rawValue_eq_iff.2 hv).symm.trans (rawValue_eq_iff.2 hw)

theorem Defines.eq {key : String} {entry : String × String} {v w : RawValue}
    (hv : Defines key entry v) (hw : Defines key entry w) : v = w := by
  -- What leads below a setting is not empty, so the name cannot end with that of the setting.
  have hnot {tail : String} (htail : RawFields.LeadsBelow (dotted tail.toList)) :
      "jitspill__" ++ key ≠ "jitspill__" ++ key ++ tail := by
    rw [Ne, ← String.toList_inj, String.toList_append (t := tail), List.self_eq_append_right]
    intro h
    rw [h] at htail
    exact htail.1 rfl
  cases hv with
  | itself hname htext =>
    cases hw with
    | itself _ htext' => exact htext.eq htext'
    | below hname' htail => exact absurd (hname.symm.trans hname') (hnot htail)
  | below hname htail =>
    cases hw with
    | itself hname' => exact absurd (hname'.symm.trans hname) (hnot htail)
    | below => rfl

theorem Gives.eq {exported : List (String × String)} {key : String} {v w : RawValue}
    (hv : Gives exported key v) (hw : Gives exported key w) : v = w := by
  refine RawValue.First.eq (fun gives hgives v w hv hw => ?_) hv hw
  obtain ⟨entry, -, rfl⟩ := List.mem_map.1 hgives
  exact hv.eq hw

/-- The variable that gives something for a setting starts with its name behind the mark. -/
theorem Gives.exists_prefix {exported : List (String × String)} {key : String} {v : RawValue}
    (h : Gives exported key v) :
    ∃ entry ∈ exported, ("jitspill__" ++ key).toList <+: entry.1.toLower.toList := by
  obtain ⟨gives, hgives, hv⟩ := RawValue.First.exists h
  obtain ⟨entry, hentry, rfl⟩ := List.mem_map.1 hgives
  refine ⟨entry, List.mem_reverse.1 hentry, ?_⟩
  cases hv with
  | itself hname => rw [hname]
  | @below _ _ tail hname =>
    rw [hname, String.toList_append (t := tail)]
    exact List.prefix_append _ _

/-- Underscores within the name stand for themselves, whatever follows the name. -/
def IsWhole (key : String) : Prop :=
  ∀ tail, dotted (key.toList ++ tail) = key.toList ++ dotted tail

theorem dotted_eq_nil {cs : List Char} (h : dotted cs = []) : cs = [] := by
  unfold dotted at h
  split at h
  · rfl
  · cases h
  · cases h

/-- What comes before a dot was there before. -/
theorem exists_of_dotted_eq_append {key cs rest : List Char}
    (hkey : ∀ c ∈ key, RawFields.isNameChar c)
    (h : dotted cs = key ++ rest) : ∃ tail, cs = key ++ tail ∧ dotted tail = rest := by
  induction key generalizing cs with
  | nil => exact ⟨cs, rfl, h⟩
  | cons c key ih =>
    unfold dotted at h
    split at h
    · cases h
    · -- A dot is no name character.
      rw [List.cons_append, List.cons.injEq] at h
      exact absurd (hkey c List.mem_cons_self) (by rw [← h.1]; decide)
    · rw [List.cons_append, List.cons.injEq] at h
      obtain ⟨rfl, h⟩ := h
      obtain ⟨tail, rfl, htail⟩ := ih (fun c hc => hkey c (List.mem_cons_of_mem _ hc)) h
      exact ⟨tail, rfl, htail⟩

theorem mem_of_mem_dotted {c : Char} {cs : List Char} (h : c ∈ dotted cs) : c = '.' ∨ c ∈ cs := by
  fun_induction dotted cs with
  | case1 => exact .inr h
  | case2 cs ih =>
    obtain rfl | h := List.mem_cons.1 h
    · exact .inl rfl
    · exact (ih h).imp_right fun h => List.mem_cons_of_mem _ (List.mem_cons_of_mem _ h)
  | case3 c' cs _ ih =>
    obtain rfl | h := List.mem_cons.1 h
    · exact .inr List.mem_cons_self
    · exact (ih h).imp_right (List.mem_cons_of_mem _)

/-- What is read of a name is in small letters. -/
theorem toLower_dotted {name : String} {cs : List Char} (h : cs ⊆ name.toLower.toList) :
    (String.ofList (dotted cs)).toLower = String.ofList (dotted cs) := by
  have hlower : ∀ c ∈ dotted cs, c.toLower = c := by
    intro c hc
    obtain rfl | hc := mem_of_mem_dotted hc
    · rfl
    · have hmem := h hc
      rw [String.toLower, String.toList_map] at hmem
      obtain ⟨_, -, rfl⟩ := List.mem_map.1 hmem
      exact Char.toLower_toLower_eq_toLower _
  rw [String.toLower, ← String.toList_inj, String.toList_map, String.toList_ofList]
  exact List.map_congr_left hlower |>.trans (List.map_id _)

theorem settingName?_eq_some_iff {name setting : String} : settingName? name = some setting ↔
    ∃ cs, name.toLower.toList = mark.toList ++ cs ∧ setting = String.ofList (dotted cs) := by
  simp only [settingName?, Option.map_eq_some_iff, List.isPrefixOf?_eq_some_iff_append_eq,
    eq_comm (b := setting), eq_comm (b := name.toLower.toList)]

/-- A variable is for a setting, or for something below it, exactly if its name says so behind the
mark. -/
theorem exists_settingName?_iff {key : String} (hkey : RawFields.IsName key) (hwhole : IsWhole key)
    (name below : String) :
    (∃ setting, settingName? name = some setting ∧ setting.toLower = key ++ below) ↔
      ∃ tail, name.toLower = "jitspill__" ++ key ++ tail ∧ dotted tail.toList = below.toList := by
  simp only [settingName?_eq_some_iff]
  constructor
  · rintro ⟨_, ⟨cs, hname, rfl⟩, hsetting⟩
    rw [toLower_dotted (hname ▸ List.subset_append_right _ cs), ← String.toList_inj,
      String.toList_ofList, String.toList_append] at hsetting
    obtain ⟨tail, rfl, htail⟩ := exists_of_dotted_eq_append (List.all_eq_true.1 hkey.2) hsetting
    refine ⟨String.ofList tail, ?_, by rw [String.toList_ofList, htail]⟩
    rw [← String.toList_inj, hname, String.toList_append, String.toList_append, List.append_assoc]
    exact congrArg (fun cs => mark.toList ++ (key.toList ++ cs)) String.toList_ofList.symm
  · rintro ⟨tail, hname, htail⟩
    rw [← String.toList_inj, String.toList_append, String.toList_append, List.append_assoc] at hname
    refine ⟨_, ⟨_, hname, rfl⟩, ?_⟩
    rw [toLower_dotted (hname ▸ List.subset_append_right _ _), hwhole, htail,
      ← String.toList_append, String.ofList_toList]

/-- A variable says of a setting what the setting says that is read from it. -/
theorem defines_iff {key : String} (hkey : RawFields.IsName key) (hwhole : IsWhole key)
    {name text : String} {v : RawValue} : Defines key (name, text) v ↔
      ∃ setting, settingName? name = some setting ∧
        RawFields.Defines key (setting, rawValue text) v := by
  constructor
  · rintro (⟨hname, htext⟩ | ⟨hname, htail⟩)
    · obtain ⟨setting, hsetting, hlower⟩ := (exists_settingName?_iff hkey hwhole name "").2
        ⟨"", by rw [hname, String.append_empty], rfl⟩
      rw [String.append_empty] at hlower
      rw [← rawValue_eq_iff.2 htext]
      exact ⟨setting, hsetting, .itself hlower⟩
    · obtain ⟨setting, hsetting, hlower⟩ := (exists_settingName?_iff hkey hwhole name _).2
        ⟨_, hname, String.toList_ofList.symm⟩
      exact ⟨setting, hsetting, .below hlower (by rwa [String.toList_ofList])⟩
  · rintro ⟨setting, hsetting, hlower | ⟨hlower, htail⟩⟩
    · obtain ⟨tail, hname, htail⟩ := (exists_settingName?_iff hkey hwhole name "").1
        ⟨setting, hsetting, by rw [hlower, String.append_empty]⟩
      have hempty : tail = "" := String.toList_inj.1 (dotted_eq_nil htail)
      rw [hempty, String.append_empty] at hname
      exact .itself hname (rawValue_eq_iff.1 rfl)
    · obtain ⟨tail, hname, hbelow⟩ := (exists_settingName?_iff hkey hwhole name _).1
        ⟨setting, hsetting, hlower⟩
      exact .below hname (by rwa [hbelow])

/-- The settings that are read from variables give what the variables give. -/
theorem gives_settings {key : String} (hkey : RawFields.IsName key) (hwhole : IsWhole key)
    (exported : List (String × String)) :
    RawFields.Gives (settings exported) key = Gives exported key := by
  rw [RawFields.Gives, settings, ← List.filterMap_reverse, Gives]
  refine RawValue.first_filterMap (fun v w => ?_) _
  obtain ⟨name, text⟩ := v
  rw [defines_iff hkey hwhole]
  simp

end Environment

end TieredStore
