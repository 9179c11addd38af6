import Reckon.Proofs.English.DurationTexts

/-!
# Rules in texts of counted units

Most rules build nothing in a text of counted units: they have an item that reads what the text does
not have, or that asks for a value that counts and units do not make. The others read digits and
units, take a count for a temperature, an hour or a year, and put counts, units and durations
together.
-/

set_option autoImplicit false

namespace Reckon.English

open Forest
open Pattern hiding some

/-! Words. -/

/-- A word that texts of counted units do not have: it needs other characters, or it is plain and no
unit. -/
def Barred (word : String) : Prop :=
  (literal word).spellable durationChars = false ∨ IsPlain word ∧ word ∉ Grain.all.map Grain.unit

instance : DecidablePred Barred := fun word =>
  inferInstanceAs (Decidable (_ ∨ IsPlain word ∧ word ∉ Grain.all.map Grain.unit))

theorem mem_all_grains (g : Grain) : g ∈ Grain.all := by
  cases g <;> decide

namespace DurationText

variable {text : Array Char} {total : Nat} {slot : Nat → Slot} {pos : Nat} {word : String}
  {p : Pattern} {options heads : List String}

theorem not_stands (only : DurationText text total slot) (barred : Barred word) :
    ¬StandsAt text pos word := by
  intro stands
  rcases barred with foreign | ⟨plain, other⟩
  · have reached := (mem_run_literal text word ⟨pos, []⟩ _).mpr ⟨stands.reads, rfl⟩
    rw [run_eq_nil_of_spellable only.chars foreign] at reached
    cases reached
  · obtain ⟨i, -, -, rfl⟩ := only.stands_unit stands plain
    exact other (List.mem_map_of_mem (mem_all_grains _))

theorem match_at_whole (only : DurationText text total slot) (options : List String)
    (one : OneOf options p)
    (barred : ∀ word ∈ options, Barred word) (pos : Nat) : (whole p).matchAt text pos = none := by
  rw [Option.eq_none_iff_forall_ne_some]
  intro m found
  obtain ⟨word, listed, stands, -⟩ := one.stands found
  exact only.not_stands (barred word listed) stands

theorem match_at_whole_word (only : DurationText text total slot)
    (barred : ∀ word ∈ options, Barred word) (pos : Nat) :
    (wholeWord options).matchAt text pos = none := by
  rw [Option.eq_none_iff_forall_ne_some]
  intro m found
  obtain ⟨word, listed, stands, -⟩ := Pattern.match_at_whole_word found
  exact only.not_stands (barred word listed) stands

/-- A pattern that starts with a word matches nowhere if its word and the units differ. -/
theorem match_at_starts (only : DurationText text total slot) (starts : StartsWord heads p)
    (plain : ∀ head ∈ heads, IsPlain head)
    (differ : ∀ head ∈ heads, ∀ unit ∈ Grain.all.map Grain.unit, Differ head unit) (pos : Nat) :
    p.matchAt text pos = none := by
  rw [Option.eq_none_iff_forall_ne_some]
  intro m found
  obtain ⟨opens, head, listed, reads⟩ := starts.match_at found
  obtain ⟨i, known, rfl⟩ := only.reads_unit opens reads (plain head listed)
  exact (only.lies i known).unit.not_reads (unit_plain _) (plain head listed)
    (differ head listed _ (List.mem_map_of_mem (mem_all_grains _))) reads

end DurationText

/-! Items that find nothing. -/

/-- The values that counts and units make: a count, what a bare count may stand for, a unit, and a
duration. -/
inductive Bare : Value → Prop
  | number (n : Int) : Bare (.number { value := .int n })
  | temperature (x : Numeral) : Bare (.temperature { value := x, latent := true })
  | year (year : Option Int) : Bare (Datetimes.latentForm (.calendar { year }))
  | hour (t : ClockTime) : Bare (Datetimes.latentForm (.timeOfDay t))
  | unit (grain : Grain) : Bare (.timeGrain { grain })
  | duration (period : Period) : Bare (.duration { period })

/-- An item that finds nothing in a text whose values are bare. -/
def Idle (text : Array Char) : Item Value → Prop
  | .text p => ∀ pos, p.matchAt text pos = none
  | .value test => ∀ v, Bare v → test v ≠ .ok true

def Sterile (text : Array Char) (r : Rule Value) : Prop :=
  ∃ item ∈ r.items, Idle text item

section Items

variable {text : Array Char} {start stop : Nat} {findings : List (Finding Value)}
  {children : List (Node Value)} {r : Rule Value}

theorem Idle.not_fits {item : Item Value} {finding : Finding Value} (idle : Idle text item) :
    ¬Fits text Bare item finding := by
  intro fits
  cases item with
  | text p =>
      obtain ⟨m, rfl, preferred | ⟨-, n, preferred, -⟩⟩ := fits_text fits
      · rw [idle m.start] at preferred
        cases preferred
      · rw [idle m.start] at preferred
        cases preferred
  | value test =>
      cases finding with
      | text m => exact fits
      | value v => exact idle v fits.2 fits.1

/-- A sterile rule cannot be laid over the text. -/
theorem Sterile.not_spread (sterile : Sterile text r)
    (bare : ∀ child ∈ children, Bare child.value) :
    ¬Spread text r.items start findings children stop := by
  intro spread
  obtain ⟨item, listed, idle⟩ := sterile
  have fits := spread_fits spread bare
  clear spread
  generalize r.items = items at listed fits
  induction fits with
  | nil => cases listed
  | cons first rest ih =>
      rcases List.mem_cons.mp listed with rfl | later
      · exact idle.not_fits first
      · exact ih later

theorem idle_of {d : Dimension} {test : d.Holds → Bool}
    (fails : ∀ held, Bare (.of d held) → test held = false) : Idle text (Test.of d test) := by
  intro v bare passed
  obtain ⟨held, rfl, passes⟩ := holds_of d (Except.ok.inj passed)
  rw [fails held bare] at passes
  cases passes

theorem idle_datetime {test : DatetimeValue → Bool}
    (years : ∀ year, test { form := .calendar { year }, latent := true } = false)
    (hours : ∀ t, test { form := .timeOfDay t, latent := true } = false) :
    Idle text (Test.datetime test) := by
  refine idle_of fun held bare => ?_
  cases bare with
  | year year => exact years year
  | hour t => exact hours t

theorem idle_on_calendar {test : PartialDate → Bool} (fails : ∀ year, test { year } = false) :
    Idle text (Datetimes.onCalendar test) :=
  idle_datetime fails fun _ => rfl

end Items

/-! Patterns that match nowhere. -/

namespace DurationText

variable {readings : Readings} {text : Array Char} {total : Nat} {slot : Nat → Slot} {p q : Pattern}

theorem foreign (only : DurationText text total slot) (unable : p.spellable durationChars = false)
    (pos : Nat) : p.matchAt text pos = none :=
  match_at_eq_none_of_spellable only.chars unable

theorem match_at_either (first : ∀ pos, p.matchAt text pos = none)
    (second : ∀ pos, q.matchAt text pos = none) (pos : Nat) :
    (Pattern.alt p q).matchAt text pos = none := by
  rw [match_at_alt, first, second]
  rfl

theorem minus_absent (only : DurationText text total slot) (pos : Nat) :
    Numbers.minus.matchAt text pos = none :=
  match_at_either (only.foreign (by decide))
    (match_at_either (only.match_at_whole_word (by decide))
    (only.match_at_whole_word (by decide))) pos

theorem approximation_absent (only : DurationText text total slot) (pos : Nat) :
    approximation.matchAt text pos = none :=
  match_at_either (only.foreign (by decide)) (only.match_at_whole_word (by decide)) pos

theorem currency_word_absent (only : DurationText text total slot) (pos : Nat) :
    Money.currencyWord.matchAt text pos = none := by
  apply match_at_either (only.foreign (by decide))
  apply only.match_at_whole ["dollar", "dollars", "buck", "bucks", "euro", "euros", "pound",
    "pounds", "cent", "cents", "yen", "usd", "eur", "gbp", "jpy"] _ (by decide)
  apply one_of_any_of
  have several (word : String) : OneOf [word ++ "", word ++ "s"] (Money.plural word) :=
    Durations.one_of_longer word "s"
  simp only [List.forall_mem_cons]
  exact ⟨(several "dollar").mono (by decide), (several "buck").mono (by decide),
    (several "euro").mono (by decide), (several "pound").mono (by decide),
    (several "cent").mono (by decide), (one_of_literal "yen").mono (by decide),
    (one_of_literal "usd").mono (by decide), (one_of_literal "eur").mono (by decide),
    (one_of_literal "gbp").mono (by decide), (one_of_literal "jpy").mono (by decide), by simp⟩

theorem article_absent (only : DurationText text total slot) (pos : Nat) :
    (whole Durations.article).matchAt text pos = none :=
  only.match_at_whole _ (Durations.one_of_longer "a" "n") (by decide) pos

theorem now_words_absent (only : DurationText text total slot) (pos : Nat) :
    Datetimes.nowWords.matchAt text pos = none :=
  only.match_at_whole _ ((one_of_words _).optional.seq (one_of_literal "now")) (by decide) pos

theorem at_word_absent (only : DurationText text total slot) (pos : Nat) :
    Datetimes.atWord.matchAt text pos = none :=
  match_at_either (only.match_at_whole_word (by decide)) (only.foreign (by decide)) pos

/-- Of the words for a day three can be spelled, but none stands. -/
theorem relative_day_words_absent (only : DurationText text total slot) (pos : Nat) :
    Datetimes.relativeDayWords.matchAt text pos = none := by
  rw [Option.eq_none_iff_forall_ne_some]
  intro m found
  obtain ⟨next, reached, -⟩ := reached_of_match_at found
  obtain ⟨opens, inner, closes⟩ := (mem_run_whole _ _ _ _).mp reached
  obtain ⟨reader, chosen, rfl⟩ := List.mem_map.mp inner
  have unable {p : Pattern} (foreign : p.spellable durationChars = false)
      (reached : reader ∈ p.run text ⟨pos, []⟩) : False := by
    rw [run_eq_nil_of_spellable only.chars foreign] at reached
    cases reached
  rcases List.mem_append.mp chosen with after | others
  · exact unable (by decide) after
  rcases List.mem_append.mp others with before | named
  · exact unable (by decide) before
  obtain ⟨word, listed, reads, rfl⟩ :=
    (mem_run_words text ["today", "tomorrow", "yesterday"] ⟨pos, []⟩ reader).mp named
  have barred : ∀ word ∈ ["today", "tomorrow", "yesterday"], Barred word := by decide
  exact only.not_stands (barred word listed) ⟨opens, reads, closes⟩

/-- An ordinal would have its ending where a unit stands. -/
theorem ordinal_digits_absent (only : DurationText text total slot) (pos : Nat) :
    Ordinals.ordinalDigits.matchAt text pos = none := by
  rw [Option.eq_none_iff_forall_ne_some]
  intro m found
  obtain ⟨middle, last, clear, moved, digits, blank, word, listed, reads, -⟩ :=
    ending_of_match found
  have endings : ∀ word ∈ ["st", "nd", "rd", "th"], IsPlain word ∧
      ∀ unit ∈ Grain.all.map Grain.unit, Differ word unit := by
    decide
  obtain ⟨plain, differ⟩ := endings word listed
  obtain ⟨i, known, rfl⟩ := only.clear_place (digits pos (Nat.le_refl _) moved) clear
  have lies := only.lies i known
  have covered : middle ≤ (slot i).gap := by
    by_contra beyond
    exact not_digit_of_space lies.space (digits _ (slot i).start_lt_gap.le (by omega))
  obtain ⟨c, here, foreign⟩ := foreign_of_reads reads plain.2 last (Nat.le_refl _)
    (Nat.lt_add_of_pos_right (List.length_pos_iff.mpr plain.1))
  have behind : last = (slot i).gap + 1 := by
    have outside : (slot i).gap ≤ last := by
      by_contra inner
      exact (not_digit_of_foreign here foreign).1
        (lies.digit_at (show (slot i).start ≤ last by omega) (by omega)).1
    have other : last ≠ (slot i).gap := by
      rintro rfl
      have letter := reads.is_word_at plain.2 (List.length_pos_iff.mpr plain.1)
      rw [Nat.add_zero, not_word_of_space lies.space] at letter
      cases letter
    omega
  subst behind
  exact lies.unit.not_reads (unit_plain _) plain (differ _ (List.mem_map_of_mem (mem_all_grains _)))
    reads

end DurationText

end Reckon.English
