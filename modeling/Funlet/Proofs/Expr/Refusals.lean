import Funlet.Expr.Record
import Funlet.Proofs.Outcome

/-!
# Refused values

The message of an error shows a value that is a part of what was to be read.  It is spelled by a
host that bears its nesting, and so no value as a whole that a host bears has a part that it cannot
show.
-/

set_option autoImplicit false

namespace Funlet

variable {Text : Type}

/-! ## Nesting -/

namespace Data

mutual

def depth : Data Text → Nat
  | .list items => depthItems items + 1
  | .map entries => depthEntries entries + 1
  | _ => 1

def depthItems : List (Data Text) → Nat
  | [] => 0
  | item :: rest => max item.depth (depthItems rest)

def depthEntries : List (Text × Data Text) → Nat
  | [] => 0
  | (_, value) :: rest => max value.depth (depthEntries rest)

end

theorem depth_pos (data : Data Text) : 0 < data.depth := by
  cases data <;> simp [depth]

theorem depth_lt_of_entry? [DecidableEq Text] [Wording Text] {entries : List (Text × Data Text)}
    {key : String} {held : Data Text} (present : entry? entries key = some held) :
    held.depth < (map entries).depth := by
  rw [depth, Nat.lt_succ_iff]
  induction entries with
  | nil => simp [ entry?, held?] at present
  | cons entry rest ih =>
    obtain ⟨name, value⟩ := entry
    rw [depthEntries]
    rw [ entry?_cons] at present
    split at present
    · obtain rfl := Option.some.inj present
      exact Nat.le_max_left _ _
    · have later : entry? rest key = some held := present
      exact Nat.le_trans (ih later) (Nat.le_max_right _ _)

theorem integerSpelling_ne_tooNested (n : Int) (limit : TooNested) :
    integerSpelling n ≠ .error (.tooNested limit) := by
  unfold integerSpelling
  generalize integerText n = outcome
  cases outcome with
  | ok digits => rintro ⟨⟩
  | error limit => rintro ⟨⟩

def nested : Nat → Data Text
  | 0 => .list []
  | count + 1 => .list [nested count]

section Spelling

variable [Wording Text]

mutual

/-- A value whose nesting is refused is nested deeper than the levels allow. -/
theorem lt_depth_of_spell {levels : Nat} {limit : TooNested} (data : Data Text)
    (refused : data.spell levels = .error (.tooNested limit)) : levels < data.depth := by
  cases levels with
  | zero => exact data.depth_pos
  | succ levels =>
    cases data with
    | null | bool | float | text => simp [spell] at refused
    | int value =>
      rw [spell] at refused
      exact absurd refused (integerSpelling_ne_tooNested value limit)
    | list items =>
      rw [spell, Except.bind_eq_error_iff] at refused
      obtain refused | ⟨_, _, done⟩ := refused
      · rw [depth]
        exact Nat.succ_lt_succ (lt_depthItems_of_spellItems items refused)
      · cases done
    | map entries =>
      rw [spell, Except.bind_eq_error_iff] at refused
      obtain refused | ⟨_, _, done⟩ := refused
      · rw [depth]
        exact Nat.succ_lt_succ (lt_depthEntries_of_spellEntries entries refused)
      · cases done

theorem lt_depthItems_of_spellItems {levels : Nat} {limit : TooNested} (items : List (Data Text))
    (refused : spellItems levels items = .error (.tooNested limit)) :
    levels < depthItems items := by
  cases items with
  | nil => simp [spellItems] at refused
  | cons item rest =>
    rw [spellItems, Except.bind_eq_error_iff] at refused
    rw [depthItems]
    obtain refused | ⟨_, _, refused⟩ := refused
    · exact Nat.lt_of_lt_of_le (lt_depth_of_spell item refused) (Nat.le_max_left _ _)
    · rw [Except.bind_eq_error_iff] at refused
      obtain refused | ⟨_, _, done⟩ := refused
      · exact Nat.lt_of_lt_of_le (lt_depthItems_of_spellItems rest refused) (Nat.le_max_right _ _)
      · cases done

theorem lt_depthEntries_of_spellEntries {levels : Nat} {limit : TooNested}
    (entries : List (Text × Data Text))
    (refused : spellEntries levels entries = .error (.tooNested limit)) :
    levels < depthEntries entries := by
  cases entries with
  | nil => simp [spellEntries] at refused
  | cons entry rest =>
    obtain ⟨key, value⟩ := entry
    rw [spellEntries, Except.bind_eq_error_iff] at refused
    rw [depthEntries]
    obtain refused | ⟨_, _, refused⟩ := refused
    · exact Nat.lt_of_lt_of_le (lt_depth_of_spell value refused) (Nat.le_max_left _ _)
    · rw [Except.bind_eq_error_iff] at refused
      obtain refused | ⟨_, _, done⟩ := refused
      · exact Nat.lt_of_lt_of_le (lt_depthEntries_of_spellEntries rest refused)
          (Nat.le_max_right _ _)
      · cases done

end

theorem spell_nested {levels count : Nat} (deep : levels ≤ count) :
    (nested count : Data Text).spell levels = .error (.tooNested {}) := by
  induction levels generalizing count with
  | zero => rw [spell]
  | succ levels ih =>
    cases count with
    | zero => exact absurd deep (Nat.not_succ_le_zero levels)
    | succ count =>
      rw [nested, spell, spellItems, ih (Nat.le_of_succ_le_succ deep)]
      rfl

end Spelling

end Data

/-! ## Messages -/

namespace RecordError

def shown? : RecordError Text → Option (Refused Text)
  | .unknownTag refused => some refused
  | .notNumeric refused => some refused
  | .notFinite refused => some refused
  | .notText _ _ refused => some refused
  | _ => none

theorem deep_of_message_error [Host] [Wording Text] {error : RecordError Text}
    {limit : TooNested} (failed : error.message = .error limit) :
    ∃ refused ∈ error.shown?, Host.maxNesting + refused.left < refused.value.depth := by
  have deep {start : String} {refused : Refused Text}
      (failed : ending start refused = .error limit) :
      Host.maxNesting + refused.left < refused.value.depth := by
    unfold ending at failed
    split at failed
    · cases failed
    · cases failed
    · rename_i unspelled
      exact Data.lt_depth_of_spell refused.value unspelled
  cases error with
  | tooDeep => cases failed
  | notRecord value => cases failed
  | missingField tag key => cases failed
  | unknownTag refused => exact ⟨refused, rfl, deep failed⟩
  | notNumeric refused => exact ⟨refused, rfl, deep failed⟩
  | notFinite refused => exact ⟨refused, rfl, deep failed⟩
  | notText tag key refused => exact ⟨refused, rfl, deep failed⟩

end RecordError

/-! ## What a reading shows -/

namespace Expr

/-- If the reading with so many levels fails, then the value that the message shows is nested at
most as deep as what was to be read, less the levels that were used up. -/
def ShowsWithin (levels depth : Nat) {α : Type} (reading : Except (RecordError Text) α) : Prop :=
  ∀ error, reading = .error error →
    ∀ refused ∈ error.shown?, refused.value.depth + levels ≤ depth + refused.left + 1

section ShowsWithin

variable {levels depth : Nat} {α β : Type}

theorem showsWithin_ok (value : α) :
    ShowsWithin levels depth (.ok value : Except (RecordError Text) α) := by
  rintro error ⟨⟩

theorem showsWithin_error {error : RecordError Text}
    (within : ∀ refused ∈ error.shown?,
      refused.value.depth + levels ≤ depth + refused.left + 1) :
    ShowsWithin levels depth (.error error : Except (RecordError Text) α) := by
  rintro _ ⟨⟩
  exact within

theorem ShowsWithin.bind {first : Except (RecordError Text) α}
    {next : α → Except (RecordError Text) β} (within : ShowsWithin levels depth first)
    (after : ∀ value, first = .ok value → ShowsWithin levels depth (next value)) :
    ShowsWithin levels depth (first >>= next) := by
  intro error failed
  obtain failed | ⟨value, done, failed⟩ := Except.bind_eq_error_iff.mp failed
  · exact within error failed
  · exact after value done error failed

variable {entries : List (Text × Data Text)}

theorem showsWithin_refused {error : RecordError Text} {value : Data Text}
    (shown : error.shown? = some ⟨levels, value⟩)
    (part : value.depth ≤ (Data.map entries).depth) :
    ShowsWithin (levels + 1) (Data.map entries).depth
      (.error error : Except (RecordError Text) α) := by
  refine showsWithin_error fun refused isShown => ?_
  obtain rfl := Option.some.inj (shown.symm.trans isShown)
  dsimp only
  omega

variable [DecidableEq Text] [Wording Text]

theorem showsWithin_field (tag key : String) :
    ShowsWithin levels depth (field tag key entries) := by
  unfold field
  split
  · exact showsWithin_ok _
  · exact showsWithin_error (by simp [RecordError.shown?])

theorem depth_lt_of_field {tag key : String} {held : Data Text}
    (found : field tag key entries = .ok held) : held.depth < (Data.map entries).depth := by
  unfold field at found
  split at found
  · rename_i present
    obtain rfl := Except.ok.inj found
    exact Data.depth_lt_of_entry? present
  · cases found

theorem showsWithin_textField (tag key : String) :
    ShowsWithin (levels + 1) (Data.map entries).depth (textField levels tag key entries) := by
  refine (showsWithin_field tag key).bind fun held found => ?_
  split
  · exact showsWithin_ok _
  · exact showsWithin_refused rfl (Nat.le_of_lt (depth_lt_of_field found))

theorem showsWithin_numberField :
    ShowsWithin (levels + 1) (Data.map entries).depth (numberField levels entries) := by
  refine (showsWithin_field "Number" "value").bind fun held found => ?_
  have part := Nat.le_of_lt (depth_lt_of_field found)
  split
  · split
    · exact showsWithin_ok _
    · exact showsWithin_refused rfl part
  · split
    · exact showsWithin_ok _
    · exact showsWithin_refused rfl part
  · exact showsWithin_refused rfl part

end ShowsWithin

/-- The message of an error shows a part of what was read. -/
theorem showsWithin_ofDataWithin [DecidableEq Text] [Wording Text] (levels : Nat)
    (data : Data Text) : ShowsWithin levels data.depth (ofDataWithin levels data) := by
  induction levels generalizing data with
  | zero => exact showsWithin_error (by simp [RecordError.shown?])
  | succ levels ih =>
    cases data with
    | map entries =>
      have child (tag key : String) : ShowsWithin (levels + 1) (Data.map entries).depth
          (field tag key entries >>= fun held => ofDataWithin levels held) := by
        refine (showsWithin_field tag key).bind fun held found error failed refused shown => ?_
        have inner := ih held error failed refused shown
        have lower := depth_lt_of_field found
        omega
      rw [ofDataWithin]
      split
      · exact showsWithin_numberField.bind fun _ _ => showsWithin_ok _
      · exact (showsWithin_textField _ _).bind fun _ _ => showsWithin_ok _
      · exact (showsWithin_textField _ _).bind fun _ _ =>
          (child _ _).bind fun _ _ => (child _ _).bind fun _ _ => showsWithin_ok _
      · exact (showsWithin_textField _ _).bind fun _ _ =>
          (child _ _).bind fun _ _ => showsWithin_ok _
      · exact (child _ _).bind fun _ _ => (child _ _).bind fun _ _ => showsWithin_ok _
      · exact (showsWithin_textField _ _).bind fun _ _ =>
          (child _ _).bind fun _ _ => (child _ _).bind fun _ _ => showsWithin_ok _
      · exact (child _ _).bind fun _ _ => (child _ _).bind fun _ _ =>
          (child _ _).bind fun _ _ => showsWithin_ok _
      · refine showsWithin_refused rfl ?_
        cases given : Data.entry? entries "nodeType" with
        | none => exact Data.depth_pos _
        | some tag => exact Nat.le_of_lt ( Data.depth_lt_of_entry? given)
    | _ => exact showsWithin_error (by simp [RecordError.shown?])

end Expr

end Funlet
