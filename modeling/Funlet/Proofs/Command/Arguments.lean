import Funlet.Command.Arguments
import Funlet.Expr.Report
import Funlet.Proofs.Outcome
import Mathlib.Tactic.SplitIfs

/-!
# Formats that arguments name

The format that a list of arguments asks for is one of those there are reports in: no other name
gets past the reading of the arguments.  Only an argument to whose end two dashes are attached can
leave the format without a name.
-/

set_option autoImplicit false

namespace Funlet

/-- The format has a report if it has a name, and it has one unless dashes took its place. -/
structure Options.Known (dashed : Prop) (options : Options) : Prop where
  known : ∀ format ∈ options.format, format ∈ formatNames
  named : options.format = none → dashed

variable {dashed : Prop}

theorem Options.known_standard : Options.standard.Known dashed := by
  refine ⟨fun format named => ?_, fun nameless => ?_⟩
  · obtain rfl := Option.some.inj named
    decide
  · simp [Options.standard] at nameless

theorem Options.Known.of_format {options after : Options} (known : options.Known dashed)
    (kept : after.format = options.format) : after.Known dashed :=
  ⟨fun format named => known.known format (kept ▸ named), fun none => known.named (kept ▸ none)⟩

namespace Arguments

/-! ## One option -/

theorem known_of_apply_format {options after : Options} {value : Option String}
    (fair : value = some "--" → dashed) (applied : apply options (.format, value) = .ok after) :
    after.Known dashed := by
  by_cases dashes : value = some "--"
  · subst dashes
    obtain rfl := Except.ok.inj applied
    exact ⟨by simp, fun _ => fair rfl⟩
  · rw [apply] at applied
    · split_ifs at applied with listed
      obtain rfl := Except.ok.inj applied
      refine ⟨fun format named => ?_, by simp⟩
      obtain rfl := Option.some.inj named
      exact List.contains_iff_mem.mp listed
    · exact dashes

theorem format_of_apply_indent {options after : Options} {value : Option String}
    (applied : apply options (.indent, value) = .ok after) : after.format = options.format := by
  by_cases dashes : value = some "--"
  · subst dashes
    obtain rfl := Except.ok.inj applied
    rfl
  · rw [apply] at applied
    · split at applied
      · obtain rfl := Except.ok.inj applied
        rfl
      · simp at applied
    · exact dashes

theorem format_of_apply {options after : Options} {switch : Switch} {value : Option String}
    (noFormat : switch ≠ .format) (applied : apply options (switch, value) = .ok after) :
    after.format = options.format := by
  cases switch with
  | format => exact absurd rfl noFormat
  | help => cases applied
  | indent => exact format_of_apply_indent applied
  | out =>
    by_cases dashes : value = some "--"
    · subst dashes
      obtain rfl := Except.ok.inj applied
      rfl
    · rw [apply] at applied
      · obtain rfl := Except.ok.inj applied
        rfl
      · exact dashes
  | string | strict | tokens | repl | verbose =>
    obtain rfl := Except.ok.inj applied
    rfl

theorem known_of_apply {options after : Options} {setting : Switch × Option String}
    (fair : setting.2 = some "--" → dashed) (known : options.Known dashed)
    (applied : apply options setting = .ok after) : after.Known dashed := by
  obtain ⟨switch, value⟩ := setting
  by_cases isFormat : switch = .format
  · subst isFormat
    exact known_of_apply_format fair applied
  · exact known.of_format (format_of_apply isFormat applied)

theorem known_of_applyAll {options after : Options} {settings : List (Switch × Option String)}
    (fair : ∀ setting ∈ settings, setting.2 = some "--" → dashed) (known : options.Known dashed)
    (applied : applyAll options settings = .ok after) : after.Known dashed := by
  induction settings generalizing options with
  | nil =>
    obtain rfl := Except.ok.inj applied
    exact known
  | cons setting rest ih =>
    obtain ⟨firstFair, restFair⟩ := List.forall_mem_cons.mp fair
    obtain ⟨next, first, others⟩ := Except.bind_eq_ok_iff.mp applied
    exact ih restFair (known_of_apply firstFair known first) others

/-! ## Values in arguments -/

theorem suffix_of_cluster {switch : Switch} {short : Bool} {attached : List Char}
    {joined : Cluster} (made : cluster switch short attached = .ok joined) :
    ∀ setting ∈ joined.settled, ∀ value ∈ setting.2, value.toList <:+ attached := by
  fun_induction cluster switch short attached generalizing joined with
  | case1 switch short attached takes =>
    obtain rfl := Except.ok.inj made
    simp
  | case4 switch short noValue letter rest next spelled last =>
    obtain rfl := Except.ok.inj made
    simp
  | case6 switch short noValue letter rest next spelled more others read ih =>
    obtain rfl := Except.ok.inj made
    intro setting among value valued
    rcases List.mem_cons.mp among with rfl | among
    · cases valued
    · exact (ih read setting among value valued).trans (List.suffix_cons letter rest)
  | case2 | case3 | case5 => cases made

theorem suffix_of_splitAtEquals {text stem value : List Char}
    (divided : splitAtEquals text = (stem, some value)) : value <:+ text := by
  unfold splitAtEquals at divided
  split at divided
  · rename_i sign rest found
    obtain ⟨-, rfl⟩ : text.takeWhile (· != '=') = stem ∧ rest = value := by simpa using divided
    exact (List.suffix_cons sign rest).trans (found ▸ List.dropWhile_suffix _)
  · simp at divided

/-- Two dashes are attached to the end of an argument. -/
def Dashed (argument : String) : Prop :=
  argument ≠ "--" ∧ ['-', '-'] <:+ argument.toList

/-- An argument with this role gives an option two dashes as its value only if `dashed`. -/
def Role.Fair (dashed : Prop) : Role → Prop
  | .plain text => text = "--" → dashed
  | .option _ _ (some attached) => ['-', '-'] <:+ attached → dashed
  | _ => True

def Fair (dashed : Prop) : List Role → Prop
  | [] => True
  | .divider :: _ => True
  | role :: rest => role.Fair dashed ∧ Fair dashed rest

theorem Fair.cons {role : Role} {rest : List Role} (first : role.Fair dashed)
    (others : Fair dashed rest) : Fair dashed (role :: rest) := by
  cases role with
  | divider => trivial
  | plain | option | unknown => exact ⟨first, others⟩

section Roles

variable {argument : String} (noDivider : argument ≠ "--") (fair : Dashed argument → dashed)
include noDivider

theorem fair_leftOver : (leftOver argument).Fair dashed := by
  unfold leftOver
  dsimp only
  split_ifs
  · exact fun divider => absurd divider noDivider
  · trivial

include fair

theorem fair_option {switch : Switch} {short : Bool} {attached : Option (List Char)}
    (suffix : ∀ value ∈ attached, value <:+ argument.toList) :
    (Role.option switch short attached).Fair dashed := by
  cases attached with
  | none => trivial
  | some value => exact fun dashes => fair ⟨noDivider, dashes.trans (suffix value rfl)⟩

theorem fair_of_abbreviation {role : Role} (given : abbreviation argument = .ok role) :
    role.Fair dashed := by
  unfold abbreviation at given
  obtain ⟨⟨stem, value⟩, divided⟩ : ∃ parts, splitAtEquals argument.toList = parts := ⟨_, rfl⟩
  simp only [divided] at given
  have suffix : ∀ attached ∈ value, attached <:+ argument.toList := by
    rintro attached rfl
    exact suffix_of_splitAtEquals divided
  split at given
  · obtain rfl := Except.ok.inj given
    exact fair_option noDivider fair suffix
  · split_ifs at given
    · split at given
      · obtain rfl := Except.ok.inj given
        exact fair_leftOver noDivider
      · obtain rfl := Except.ok.inj given
        exact fair_option noDivider fair suffix
      · cases given
    · split at given
      · obtain rfl := Except.ok.inj given
        refine fair_option noDivider fair fun attached joined => ?_
        obtain rfl := Option.some.inj joined
        exact List.drop_suffix 2 _
      · obtain rfl := Except.ok.inj given
        exact fair_leftOver noDivider

theorem fair_of_role {role : Role} (given : Arguments.role argument = .ok role) :
    role.Fair dashed := by
  have plain : (Role.plain argument).Fair dashed := fun divider => absurd divider noDivider
  unfold Arguments.role at given
  split at given
  · obtain rfl := Except.ok.inj given
    exact plain
  · obtain rfl := Except.ok.inj given
    exact plain
  · split at given
    · obtain rfl := Except.ok.inj given
      exact fair_option noDivider fair (by simp)
    · exact fair_of_abbreviation noDivider fair given
  · obtain rfl := Except.ok.inj given
    exact plain

end Roles

theorem fair_of_roles {arguments : List String} {roles : List Role}
    (fair : ∀ argument ∈ arguments, Dashed argument → dashed)
    (given : Arguments.roles arguments = .ok roles) : Fair dashed roles := by
  fun_induction Arguments.roles arguments generalizing roles with
  | case1 =>
    obtain rfl := Except.ok.inj given
    trivial
  | case2 rest =>
    obtain rfl := Except.ok.inj given
    trivial
  | case3 argument rest noDivider ih =>
    obtain ⟨firstFair, restFair⟩ := List.forall_mem_cons.mp fair
    obtain ⟨first, role, given⟩ := Except.bind_eq_ok_iff.mp given
    obtain ⟨others, more, given⟩ := Except.bind_eq_ok_iff.mp given
    obtain rfl := Except.ok.inj given
    exact Fair.cons (fair_of_role noDivider firstFair role) (ih restFair more)

/-! ## Whole argument lists -/

theorem format_of_place (progress : Progress) (text : String) :
    (place progress text).options.format = progress.options.format := by
  unfold place
  split_ifs <;> rfl

theorem format_of_finish (progress : Progress) (roles : List Role) :
    (finish progress roles).options.format = progress.options.format := by
  unfold finish
  dsimp only
  split_ifs
  · rfl
  · split <;> rfl

theorem exists_of_readAll_option {progress after : Progress} {switch : Switch} {short : Bool}
    {attached : Option (List Char)} {rest : List Role}
    (fair : Fair dashed (.option switch short attached :: rest))
    (done : readAll progress (.option switch short attached :: rest) = .ok after) :
    ∃ settings options more, applyAll progress.options settings = .ok options ∧
      (∀ setting ∈ settings, setting.2 = some "--" → dashed) ∧ Fair dashed more ∧
      more.length ≤ rest.length ∧ readAll { progress with options } more = .ok after := by
  obtain ⟨optionFair, restFair⟩ := fair
  cases attached
  case' none =>
    rw [readAll] at done
    obtain ⟨joined, made, done⟩ := Except.bind_eq_ok_iff.mp done
    have settledFair : ∀ setting ∈ joined.settled, setting.2 = some "--" → dashed := by
      obtain rfl := Except.ok.inj made
      simp
  case' some attached =>
    rw [readAll] at done
    obtain ⟨joined, made, done⟩ := Except.bind_eq_ok_iff.mp done
    have settledFair : ∀ setting ∈ joined.settled, setting.2 = some "--" → dashed := by
      intro setting among valued
      have suffix := suffix_of_cluster (Except.mapError_eq_ok_iff.mp made) setting among
      exact optionFair (suffix "--" valued)
  -- The characters attached decide only which options there are.
  all_goals
    dsimp only at done
    split at done
    · obtain ⟨options, applied, done⟩ := Except.bind_eq_ok_iff.mp done
      exact ⟨_, options, rest, applied, settledFair, restFair, Nat.le_refl _, done⟩
    · split_ifs at done
      · cases rest with
        | nil => cases done
        | cons role more =>
          cases role with
          | plain value =>
            obtain ⟨options, applied, done⟩ := Except.bind_eq_ok_iff.mp done
            refine ⟨_, options, more, applied, ?_, restFair.2, by simp, done⟩
            rw [List.forall_mem_append, List.forall_mem_singleton]
            exact ⟨settledFair, fun dashes => restFair.1 (Option.some.inj dashes)⟩
          | divider | option | unknown => cases done
      · obtain ⟨options, applied, done⟩ := Except.bind_eq_ok_iff.mp done
        refine ⟨_, options, rest, applied, ?_, restFair, Nat.le_refl _, done⟩
        rw [List.forall_mem_append, List.forall_mem_singleton]
        exact ⟨settledFair, by simp⟩

/-- By induction on the number of roles, since an option may take the one after it as its value. -/
theorem known_of_readAll {bound : Nat} {progress after : Progress} {roles : List Role}
    (bounded : roles.length ≤ bound) (fair : Fair dashed roles)
    (known : progress.options.Known dashed) (done : readAll progress roles = .ok after) :
    after.options.Known dashed := by
  induction bound generalizing progress roles with
  | zero =>
    obtain rfl := List.eq_nil_of_length_eq_zero (Nat.le_zero.mp bounded)
    obtain rfl := Except.ok.inj done
    exact known
  | succ bound ih =>
    cases roles with
    | nil =>
      obtain rfl := Except.ok.inj done
      exact known
    | cons role rest =>
      rw [List.length_cons, Nat.add_le_add_iff_right] at bounded
      cases role with
      | option switch short attached =>
        obtain ⟨settings, options, more, applied, settingsFair, moreFair, shorter, others⟩ :=
          exists_of_readAll_option fair done
        exact ih (Nat.le_trans shorter bounded) moreFair
          (known_of_applyAll settingsFair known applied) others
      | unknown text =>
        rw [readAll] at done
        refine ih bounded fair.2 ?_ done
        exact known.of_format rfl
      | plain text =>
        rw [readAll] at done
        split_ifs at done
        · exact ih bounded fair.2 (known.of_format (format_of_place progress text)) done
        · obtain rfl := Except.ok.inj done
          exact known.of_format (format_of_finish progress _)
      | divider =>
        obtain rfl := Except.ok.inj done
        exact known.of_format (format_of_finish progress _)

/-- The format that arguments ask for has a report, unless two dashes attached to one of them leave
it without a name. -/
theorem known_of_read {arguments : List String} {options : Options}
    (done : read arguments = .ok options) :
    options.Known (∃ argument ∈ arguments, Dashed argument) := by
  obtain ⟨roles, sorted, done⟩ := Except.bind_eq_ok_iff.mp done
  obtain ⟨progress, readRoles, done⟩ := Except.bind_eq_ok_iff.mp done
  split_ifs at done
  obtain rfl := Except.ok.inj done
  refine known_of_readAll (Nat.le_refl _) ?_ Options.known_standard readRoles
  refine fair_of_roles (fun argument among dashed => ⟨argument, among, dashed⟩) ?_
  exact Except.mapError_eq_ok_iff.mp sorted

end Arguments

end Funlet
