import Mathlib
import Reckon.Proofs.English.Dimensions
import Reckon.Proofs.Forest.Layouts
import Reckon.Proofs.Forest.Listed
import Reckon.Proofs.Forest.Saturation
import Reckon.Proofs.Pattern.Runs
import Reckon.Proofs.Pattern.WholeWords
import Reckon.Proofs.Text.Blanks

/-!
# Where literals start

Numbers and ordinals in digits are read by four patterns, which look around them for more digits. No
literal starts behind a digit, so one that starts inside another starts behind a separator. The
patterns for numbers look behind a separator as well, where a digit comes before it. Two pieces
remain: what follows a point that begins a decimal, and an ordinal after the last separator.
-/

set_option autoImplicit false

namespace Reckon.English

open Forest Sequencing
open Pattern hiding some

/-- The ways to write a number or an ordinal in digits. -/
inductive Literal where
  | grouped | plain | decimal | ordinal
deriving DecidableEq, Repr

namespace Literal

def rule : Literal → String
  | grouped => "number: comma grouped digits"
  | plain => "number: digits"
  | decimal => "number: decimal"
  | ordinal => "ordinal: digits"

def pattern : Literal → Pattern
  | grouped => Numbers.groupedDigits
  | plain => Numbers.plainDigits
  | decimal => Numbers.decimalDigits
  | ordinal => Ordinals.ordinalDigits

end Literal

/-! How literals lie. -/

abbrev SeparatorAt (text : Array Char) (place : Nat) : Prop :=
  ClassAt text place (.either (.exactly '.') (.exactly ','))

/-- No digit comes right before a place. -/
def Clear (text : Array Char) (place : Nat) : Prop :=
  ∀ before, before + 1 = place → ¬DigitAt text before

/-- Neither a digit nor a digit and a separator come right before a place. -/
structure Fresh (text : Array Char) (place : Nat) : Prop where
  clear : Clear text place
  uncut : ∀ before, before + 2 = place → ¬(DigitAt text before ∧ SeparatorAt text (before + 1))

/-- Digits in groups: each comma between them comes after a digit. -/
structure GroupedAt (text : Array Char) (start stop : Nat) : Prop where
  fresh : Fresh text start
  nonempty : start < stop
  first : DigitAt text start
  inner : ∀ place, start < place → place < stop →
    DigitAt text place ∨ text[place]? = some ',' ∧ DigitAt text (place - 1)
  last : DigitAt text (stop - 1)
  ends : ¬DigitAt text stop

structure PlainAt (text : Array Char) (start stop : Nat) : Prop where
  fresh : Fresh text start
  nonempty : start < stop
  digits : DigitsFrom text start stop
  ends : ¬DigitAt text stop

/-- Digits around a point. Those after it are followed by neither a digit nor a point and a digit.
-/
structure DecimalAt (text : Array Char) (start point stop : Nat) : Prop where
  fresh : Fresh text start
  order : start ≤ point ∧ point + 1 < stop
  whole : DigitsFrom text start point
  mark : text[point]? = some '.'
  part : DigitsFrom text (point + 1) stop
  ends : ¬DigitAt text stop
  last : ¬(ClassAt text stop (.exactly '.') ∧ DigitAt text (stop + 1))

/-- A character that has no place in a number. -/
def Foreign (c : Char) : Prop :=
  Text.isDigit c = false ∧ c ≠ '.' ∧ c ≠ ','

structure OrdinalAt (text : Array Char) (start middle stop : Nat) : Prop where
  clear : Clear text start
  order : start < middle ∧ middle < stop
  digits : DigitsFrom text start middle
  ending : ∀ place, middle ≤ place → place < stop → ∃ c, text[place]? = some c ∧ Foreign c

/-- A literal that the text has from one place to another. -/
def Literal.LiesAt (text : Array Char) (start stop : Nat) : Literal → Prop
  | grouped => GroupedAt text start stop
  | plain => PlainAt text start stop
  | decimal => ∃ point, DecimalAt text start point stop
  | ordinal => ∃ middle, OrdinalAt text start middle stop

section Matches

variable {text : Array Char} {start : Nat} {m : Match} {cursor next : Cursor}

theorem clear_of_run (reached : next ∈ (notBehind [.digit]).run text cursor) :
    Clear text cursor.pos ∧ next = cursor := by
  obtain ⟨free, same⟩ := mem_run_not_behind.mp reached
  refine ⟨fun before place => ?_, same⟩
  rw [← place] at free
  exact not_class_at_before free

theorem fresh_of_run (reached : next ∈ Numbers.freshDigits.run text cursor) :
    Fresh text cursor.pos ∧ next = cursor := by
  obtain ⟨middle, first, second⟩ := List.mem_flatMap.mp reached
  obtain ⟨clear, rfl⟩ := clear_of_run first
  obtain ⟨free, same⟩ := mem_run_not_behind.mp second
  refine ⟨⟨clear, fun before place => ?_⟩, same⟩
  rw [← place] at free
  exact not_both_before free

theorem plain_at_of_match (found : Numbers.plainDigits.matchAt text start = some m) :
    PlainAt text start m.stop := by
  obtain ⟨next, reached, stop⟩ := reached_of_match_at found
  obtain ⟨_, first, reached⟩ := mem_run_sequence.mp reached
  obtain ⟨fresh, rfl⟩ := fresh_of_run first
  obtain ⟨c, digits, reached⟩ := mem_run_sequence.mp reached
  obtain ⟨none, reached⟩ := mem_run_sequence_not_ahead.mp reached
  obtain ⟨-, reached⟩ := mem_run_sequence_not_ahead.mp reached
  obtain rfl := mem_run_sequence_nil.mp reached
  rw [← stop]
  constructor
  case fresh => exact fresh
  case nonempty => exact run_moves digits rfl
  case digits => exact digits_from_repeated digits
  case ends => exact not_class_at_of_run (run_any_of_eq_nil none _ List.mem_cons_self)

theorem group_keeps {middle : Cursor}
    (inner : ∀ place, start < place → place < middle.pos →
      DigitAt text place ∨ text[place]? = some ',' ∧ DigitAt text (place - 1))
    (ahead : start < middle.pos) (last : DigitAt text (middle.pos - 1))
    (reached : next ∈ (seq (char ',') (exactly 3 digit)).run text middle) :
    (∀ place, start < place → place < next.pos →
      DigitAt text place ∨ text[place]? = some ',' ∧ DigitAt text (place - 1)) ∧
      start < next.pos ∧ DigitAt text (next.pos - 1) := by
  obtain ⟨c, comma, digits⟩ := List.mem_flatMap.mp reached
  obtain ⟨⟨d, here, accepted⟩, rfl⟩ := (mem_run_one _ _ _ _).mp comma
  have mark : d = ',' := by simpa [CharClass.accepts] using accepted
  rw [mark] at here
  have moved := run_moves digits rfl
  have after := digits_from_repeated digits
  simp only at moved after
  refine ⟨fun place behind before => ?_, by omega, after _ (by omega) (by omega)⟩
  rcases Nat.lt_trichotomy place middle.pos with early | same | late
  · exact inner place behind early
  · rw [same]
    exact .inr ⟨here, last⟩
  · exact .inl (after place late before)

theorem grouped_at_of_match (found : Numbers.groupedDigits.matchAt text start = some m) :
    GroupedAt text start m.stop := by
  obtain ⟨next, reached, stop⟩ := reached_of_match_at found
  obtain ⟨_, first, reached⟩ := mem_run_sequence.mp reached
  obtain ⟨fresh, rfl⟩ := fresh_of_run first
  obtain ⟨c, digits, reached⟩ := mem_run_sequence.mp reached
  obtain ⟨d, groups, reached⟩ := mem_run_sequence.mp reached
  obtain ⟨none, reached⟩ := mem_run_sequence_not_ahead.mp reached
  obtain rfl := mem_run_sequence_nil.mp reached
  have moved := run_moves digits rfl
  have head := digits_from_repeated digits
  simp only at moved head
  have kept := repeated_keeps (P := fun e => (∀ place, start < place → place < e.pos →
      DigitAt text place ∨ text[place]? = some ',' ∧ DigitAt text (place - 1)) ∧
      start < e.pos ∧ DigitAt text (e.pos - 1))
    (fun e known f stepped => group_keeps known.1 known.2.1 known.2.2 stepped)
    ⟨fun place behind before => .inl (head place behind.le before), moved,
      head _ (by omega) (by omega)⟩ groups
  rw [← stop]
  constructor
  case fresh => exact fresh
  case nonempty => exact kept.2.1
  case first => exact head start (Nat.le_refl _) moved
  case inner => exact kept.1
  case last => exact kept.2.2
  case ends => exact not_class_at_of_run (run_any_of_eq_nil none _ List.mem_cons_self)

theorem decimal_at_of_match (found : Numbers.decimalDigits.matchAt text start = some m) :
    ∃ point, DecimalAt text start point m.stop := by
  obtain ⟨next, reached, stop⟩ := reached_of_match_at found
  obtain ⟨_, first, reached⟩ := mem_run_sequence.mp reached
  obtain ⟨fresh, rfl⟩ := fresh_of_run first
  obtain ⟨c, digits, reached⟩ := mem_run_sequence.mp reached
  obtain ⟨_, mark, reached⟩ := mem_run_sequence.mp reached
  obtain ⟨⟨d, here, accepted⟩, rfl⟩ := (mem_run_one _ _ _ _).mp mark
  obtain ⟨e, more, reached⟩ := mem_run_sequence.mp reached
  obtain ⟨none, reached⟩ := mem_run_sequence_not_ahead.mp reached
  obtain rfl := mem_run_sequence_nil.mp reached
  have forward := (run_reaches text _ _ _ digits).1
  have moved := run_moves more rfl
  obtain ⟨noDigit, noPart⟩ := List.append_eq_nil_iff.mp none
  rw [← stop]
  refine ⟨c.pos, ?_⟩
  constructor
  case fresh => exact fresh
  case order => exact ⟨forward, moved⟩
  case whole => exact digits_from_repeated digits
  case mark =>
    have point : d = '.' := by simpa [CharClass.accepts] using accepted
    rw [here, point]
  case part => exact digits_from_repeated more
  case ends => exact not_class_at_of_run noDigit
  case last => exact not_both_of_run noPart

theorem foreign_of_blank {c : Char} (blank : Text.isBlank c = true) : Foreign c := by
  refine ⟨Text.not_digit_of_trimmed (Text.is_trimmed_of_is_blank blank), ?_, ?_⟩
  · rintro rfl
    exact absurd blank (by decide)
  · rintro rfl
    exact absurd blank (by decide)

theorem foreign_of_letter {letter c : Char} (lower : letter.isLower = true)
    (stands : CharClass.matchesLetter letter c = true) : Foreign c := by
  refine ⟨is_digit_of_letter lower stands, ?_, ?_⟩
  · rintro rfl
    have code := code_of_letter lower stands
    simp at code
  · rintro rfl
    have code := code_of_letter lower stands
    simp at code

theorem foreign_of_reads {cs : List Char} (reads : ReadsAt text start cs)
    (lower : ∀ c ∈ cs, c.isLower = true) : ∀ place, start ≤ place → place < start + cs.length →
      ∃ c, text[place]? = some c ∧ Foreign c := by
  induction cs generalizing start with
  | nil =>
      intro place after before
      simp at before
      omega
  | cons letter rest ih =>
      intro place after before
      obtain ⟨⟨c, here, accepted⟩, later⟩ := reads
      rw [accepts_literal_class (lower letter List.mem_cons_self)] at accepted
      by_cases first : place = start
      · rw [first]
        exact ⟨c, here, foreign_of_letter (lower letter List.mem_cons_self) accepted⟩
      · apply ih later fun d member => lower d (List.mem_cons_of_mem _ member)
        · omega
        · rw [List.length_cons] at before
          omega

/-- Digits, perhaps a blank, and an ending. -/
theorem ending_of_match (found : Ordinals.ordinalDigits.matchAt text start = some m) :
    ∃ middle last, Clear text start ∧ start < middle ∧ DigitsFrom text start middle ∧
      (last = middle ∨ last = middle + 1 ∧ ∃ b, text[middle]? = some b ∧ Text.isBlank b = true) ∧
      ∃ word ∈ ["st", "nd", "rd", "th"], ReadsAt text last word.toList ∧
        m.stop = last + word.toList.length := by
  obtain ⟨next, reached, stop⟩ := reached_of_match_at found
  obtain ⟨_, first, reached⟩ := mem_run_sequence.mp reached
  obtain ⟨clear, rfl⟩ := clear_of_run first
  obtain ⟨_, grouped, reached⟩ := mem_run_sequence.mp reached
  obtain ⟨c, digits, rfl⟩ := List.mem_map.mp grouped
  obtain ⟨d, gap, reached⟩ := mem_run_sequence.mp reached
  obtain ⟨e, ending, reached⟩ := mem_run_sequence.mp reached
  obtain ⟨_, closed, last⟩ := mem_run_sequence.mp reached
  obtain ⟨-, rfl⟩ := (mem_run_edge _ _ _).mp closed
  obtain rfl := mem_run_sequence_nil.mp last
  obtain ⟨word, listed, reads, rfl⟩ := (mem_run_words _ _ _ _).mp ending
  refine ⟨c.pos, d.pos, clear, run_moves digits rfl, digits_from_repeated digits, ?_, word, listed,
    reads, stop.symm⟩
  rcases mem_run_optional gap with rfl | blank
  · exact .inl rfl
  · obtain ⟨white, rfl⟩ := (mem_run_one _ _ _ _).mp blank
    exact .inr ⟨rfl, white⟩

theorem ordinal_at_of_match (found : Ordinals.ordinalDigits.matchAt text start = some m) :
    ∃ middle, OrdinalAt text start middle m.stop := by
  obtain ⟨middle, last, clear, moved, digits, gap, word, listed, reads, stop⟩ :=
    ending_of_match found
  have letters : ∀ word ∈ ["st", "nd", "rd", "th"], IsPlain word ∧ word.toList.length = 2 := by
    decide
  obtain ⟨plain, two⟩ := letters word listed
  have foreign := foreign_of_reads reads plain.2
  refine ⟨middle, clear, ⟨moved, by omega⟩, digits, fun place after before => ?_⟩
  rw [stop] at before
  by_cases early : place < last
  · rcases gap with rfl | ⟨behind, b, here, white⟩
    · omega
    · obtain rfl : place = middle := by omega
      exact ⟨b, here, foreign_of_blank white⟩
  · exact foreign place (by omega) before

theorem Literal.lies_at_of_match (l : Literal) (found : l.pattern.matchAt text start = some m) :
    l.LiesAt text start m.stop := by
  cases l with
  | grouped => exact grouped_at_of_match found
  | plain => exact plain_at_of_match found
  | decimal => exact decimal_at_of_match found
  | ordinal => exact ordinal_at_of_match found

end Matches

/-! Literals in literals. -/

section Pieces

variable {text : Array Char} {l k : Literal} {start middle stop inner last : Nat}

theorem Literal.LiesAt.clear (lies : l.LiesAt text start stop) : Clear text start := by
  cases l with
  | grouped => exact GroupedAt.fresh lies |>.clear
  | plain => exact PlainAt.fresh lies |>.clear
  | decimal =>
      obtain ⟨_, parts⟩ := lies
      exact parts.fresh.clear
  | ordinal =>
      obtain ⟨_, parts⟩ := lies
      exact parts.clear

theorem Literal.LiesAt.fresh (lies : l.LiesAt text start stop) (number : l ≠ .ordinal) :
    Fresh text start := by
  cases l with
  | grouped => exact GroupedAt.fresh lies
  | plain => exact PlainAt.fresh lies
  | decimal =>
      obtain ⟨_, parts⟩ := lies
      exact parts.fresh
  | ordinal => exact absurd rfl number

theorem Literal.LiesAt.opens (lies : l.LiesAt text start stop) :
    DigitAt text start ∨ text[start]? = some '.' := by
  cases l with
  | grouped => exact .inl (GroupedAt.first lies)
  | plain => exact .inl (PlainAt.digits lies start (Nat.le_refl _) (PlainAt.nonempty lies))
  | decimal =>
      obtain ⟨point, parts⟩ := lies
      rcases Nat.lt_or_eq_of_le parts.order.1 with before | same
      · exact .inl (parts.whole start (Nat.le_refl _) before)
      · rw [same]
        exact .inr parts.mark
  | ordinal =>
      obtain ⟨_, parts⟩ := lies
      exact .inl (parts.digits start (Nat.le_refl _) parts.order.1)

theorem not_digit_of_foreign {place : Nat} {c : Char} (here : text[place]? = some c)
    (foreign : Foreign c) : ¬DigitAt text place ∧ text[place]? ≠ some '.' ∧
      text[place]? ≠ some ',' := by
  refine ⟨?_, ?_, ?_⟩
  · rintro ⟨d, there, accepted⟩
    obtain rfl := Option.some.inj (here.symm.trans there)
    simp [CharClass.accepts, foreign.1] at accepted
  · intro point
    exact foreign.2.1 (Option.some.inj (here.symm.trans point))
  · intro comma
    exact foreign.2.2 (Option.some.inj (here.symm.trans comma))

/-- An ordinal goes on to its ending, over whatever can stand in a number. -/
theorem OrdinalAt.covers (lies : OrdinalAt text start middle stop)
    (known : ∀ place, start ≤ place → place < last →
      DigitAt text place ∨ text[place]? = some ',') : last ≤ stop := by
  by_contra short
  obtain ⟨c, here, foreign⟩ := lies.ending middle (Nat.le_refl _) lies.order.2
  obtain ⟨noDigit, -, noComma⟩ := not_digit_of_foreign here foreign
  have early := lies.order
  rcases known middle (by omega) (by omega) with digit | comma
  · exact noDigit digit
  · exact noComma comma

/-- A literal goes on over all the digits that it starts with. -/
theorem Literal.LiesAt.covers (lies : l.LiesAt text start stop)
    (digits : DigitsFrom text start last) : last ≤ stop := by
  have reaches (order : start ≤ stop) (ends : ¬DigitAt text stop) : last ≤ stop := by
    by_contra short
    exact ends (digits stop order (by omega))
  cases l with
  | grouped => exact reaches (GroupedAt.nonempty lies).le (GroupedAt.ends lies)
  | plain => exact reaches (PlainAt.nonempty lies).le (PlainAt.ends lies)
  | decimal =>
      obtain ⟨_, parts⟩ := lies
      have order := parts.order
      exact reaches (by omega) parts.ends
  | ordinal =>
      obtain ⟨_, parts⟩ := lies
      exact parts.covers fun place after before => .inl (digits place after before)

/-- What can start inside a literal: its way of writing, that of the piece, and where they start. -/
inductive Piece (text : Array Char) : Literal → Literal → Nat → Nat → Prop
  | ordinal {l : Literal} {start before : Nat} (outer : l = .grouped ∨ l = .decimal)
      (digit : DigitAt text before) (separator : SeparatorAt text (before + 1)) :
      Piece text l .ordinal start (before + 2)
  | behindPoint {k : Literal} {start : Nat} (point : text[start]? = some '.')
      (whole : k ≠ .decimal) : Piece text .decimal k start (start + 1)

theorem not_inside_digits (lies : k.LiesAt text inner last)
    (digits : DigitsFrom text start stop) (after : start < inner) : stop < inner := by
  by_contra within
  obtain ⟨before, rfl⟩ : ∃ before, inner = before + 1 := ⟨inner - 1, by omega⟩
  exact lies.clear before rfl (digits before (by omega) (by omega))

theorem eq_ordinal_of_cut {before : Nat} (lies : k.LiesAt text (before + 2) last)
    (digit : DigitAt text before) (separator : SeparatorAt text (before + 1)) : k = .ordinal := by
  by_contra number
  exact (lies.fresh number).uncut before rfl ⟨digit, separator⟩

theorem separator_at_of_comma {place : Nat} (comma : text[place]? = some ',') :
    SeparatorAt text place :=
  ⟨',', comma, rfl⟩

theorem separator_at_of_point {place : Nat} (point : text[place]? = some '.') :
    SeparatorAt text place :=
  ⟨'.', point, rfl⟩

theorem piece_of_grouped (outer : GroupedAt text start stop) (lies : k.LiesAt text inner last)
    (after : start < inner) (before : inner < stop) :
    stop ≤ last ∧ Piece text .grouped k start inner := by
  obtain ⟨place, rfl⟩ : ∃ place, inner = place + 1 := ⟨inner - 1, by omega⟩
  have free := lies.clear place rfl
  by_cases first : place = start
  · rw [first] at free
    exact absurd outer.first free
  rcases outer.inner place (by omega) (by omega) with digit | ⟨comma, digit⟩
  · exact absurd digit free
  obtain ⟨before, rfl⟩ : ∃ before, place = before + 1 := ⟨place - 1, by omega⟩
  have separator := separator_at_of_comma comma
  obtain rfl := eq_ordinal_of_cut lies digit separator
  obtain ⟨middle, parts⟩ := lies
  constructor
  · apply parts.covers
    intro place behind within
    exact (outer.inner place (by omega) within).imp_right And.left
  · exact .ordinal (.inl rfl) digit separator

theorem piece_of_decimal {point : Nat} (outer : DecimalAt text start point stop)
    (lies : k.LiesAt text inner last) (after : start < inner) (before : inner < stop) :
    stop ≤ last ∧ Piece text .decimal k start inner := by
  have order := outer.order
  have past : point < inner := not_inside_digits lies outer.whole after
  have next : inner = point + 1 := by
    by_contra later
    have beyond := not_inside_digits lies outer.part (by omega)
    omega
  subst next
  refine ⟨lies.covers outer.part, ?_⟩
  rcases Nat.lt_or_eq_of_le order.1 with ahead | same
  · obtain ⟨place, rfl⟩ : ∃ place, point = place + 1 := ⟨point - 1, by omega⟩
    have digit := outer.whole place (by omega) (by omega)
    have separator := separator_at_of_point outer.mark
    obtain rfl := eq_ordinal_of_cut lies digit separator
    exact .ordinal (.inr rfl) digit separator
  · subst same
    apply Piece.behindPoint outer.mark
    -- A decimal behind the point would end the outer one before a point and a digit.
    rintro rfl
    obtain ⟨second, parts⟩ := lies
    have inside := parts.order
    have digits := parts.part (second + 1) (Nat.le_refl _) inside.2
    have noDigit (place : Nat) (mark : text[place]? = some '.') : ¬DigitAt text place := by
      rintro ⟨c, here, accepted⟩
      obtain rfl := Option.some.inj (mark.symm.trans here)
      cases accepted
    rcases Nat.lt_trichotomy second stop with early | here | late
    · exact noDigit second parts.mark (outer.part second inside.1 early)
    · rw [here] at digits inside
      exact outer.last ⟨⟨'.', here ▸ parts.mark, rfl⟩, digits⟩
    · exact outer.ends (parts.whole stop (by omega) late)

theorem Literal.LiesAt.piece (outer : l.LiesAt text start stop) (lies : k.LiesAt text inner last)
    (after : start < inner) (before : inner < stop) : stop ≤ last ∧ Piece text l k start inner := by
  cases l with
  | grouped => exact piece_of_grouped outer lies after before
  | plain =>
      have beyond := not_inside_digits lies (PlainAt.digits outer) after
      omega
  | decimal =>
      obtain ⟨point, parts⟩ := outer
      exact piece_of_decimal parts lies after before
  | ordinal =>
      obtain ⟨middle, parts⟩ := outer
      have past := not_inside_digits lies parts.digits after
      obtain ⟨c, here, foreign⟩ := parts.ending inner past.le before
      obtain ⟨noDigit, noPoint, -⟩ := not_digit_of_foreign here foreign
      rcases lies.opens with digit | point
      · exact absurd digit noDigit
      · exact absurd point noPoint

end Pieces

section Forests

variable {rs : RuleSet Value} {readings : Readings} {text : Array Char} {node : Node Value}

theorem items_of_rule (l : Literal) {r : Rule Value} (member : r ∈ rulesWith readings)
    (named : r.name = l.rule) : r.items = [.text l.pattern] := by
  have number {s : Rule Value} (listed : s ∈ Numbers.rules readings) : s ∈ rulesWith readings := by
    simp [rulesWith, listed]
  have ordinal {s : Rule Value} (listed : s ∈ Ordinals.rules readings) :
      s ∈ rulesWith readings := by
    simp [rulesWith, listed]
  obtain ⟨s, there, same, items⟩ : ∃ s ∈ rulesWith readings,
      s.name = l.rule ∧ s.items = [.text l.pattern] := by
    cases l with
    | grouped =>
        exact ⟨⟨_, _, Numbers.digits⟩, number (by simp [Numbers.rules, Literal.pattern]), rfl, rfl⟩
    | plain =>
        exact ⟨⟨_, _, Numbers.digits⟩, number (by simp [Numbers.rules, Literal.pattern]), rfl, rfl⟩
    | decimal =>
        exact ⟨⟨_, _, Numbers.decimal⟩, number (by simp [Numbers.rules, Literal.pattern]), rfl, rfl⟩
    | ordinal =>
        exact ⟨⟨_, _, Ordinals.digits⟩, ordinal (by simp [Ordinals.rules, Literal.pattern]), rfl,
          rfl⟩
  have one := List.inj_on_of_nodup_map (rules_with_distinct readings) member there
    (named.trans same.symm)
  rw [one, items]

theorem derives_literal (english : rs.rules = rulesWith readings) (derives : Derives rs text node)
    (l : Literal) (named : node.rule = l.rule) :
    ∃ start stop : Nat, node.chars = ⟨start, stop⟩ ∧ l.LiesAt text start stop := by
  cases derives with
  | intro _ r member built _ =>
      obtain ⟨findings, ⟨start, stop, v, spread, -, -, shape⟩, -⟩ := built
      rw [english] at member
      have name : r.name = l.rule := by
        rw [shape] at named
        exact named
      rw [items_of_rule l member name] at spread
      obtain ⟨m, found, rfl, rfl, -, -⟩ := spread_text_iff.mp spread
      refine ⟨m.start, m.stop, ?_, l.lies_at_of_match
          (match_at_of_mem_find_all found (by cases l <;> rfl))⟩
      rw [shape]
      rfl

/-- Of the literals of a forest, one that starts inside another goes on to its end. It is an ordinal
behind the last separator of a number, or it is what follows the point that begins a decimal. -/
theorem literal_pieces (readings : Readings) (maxRounds maxNodes : Int) (text : Array Char)
    (entries : List (Entry Value)) (notices : List Notice)
    (ran : RuleSet.apply { rules := rulesWith readings, maxRounds, maxNodes } text =
      .ok (entries, notices)) :
    ∀ d ∈ entries, ∀ e ∈ entries, ∀ l k : Literal, d.node.rule = l.rule → e.node.rule = k.rule →
      d.node.chars.start < e.node.chars.start → e.node.chars.start < d.node.chars.stop →
        d.node.chars.stop ≤ e.node.chars.stop ∧
          Piece text l k d.node.chars.start.toNat e.node.chars.start.toNat := by
  intro d left e right l k first second after before
  obtain ⟨start, stop, outer, lies⟩ := derives_literal rfl (RuleSet.apply_sound ran d left) l first
  obtain ⟨inner, last, within, part⟩ :=
    derives_literal rfl (RuleSet.apply_sound ran e right) k second
  rw [outer] at after before ⊢
  rw [within] at after before ⊢
  obtain ⟨covers, piece⟩ := lies.piece part (by simpa using after) (by simpa using before)
  exact ⟨by simpa using covers, piece⟩

def Literal.spans (l : Literal) (entries : List (Entry Value)) : List Span :=
  (entries.filter fun e => e.node.rule = l.rule).map (·.node.chars)

theorem Literal.mem_spans {l : Literal} {entries : List (Entry Value)} {span : Span} :
    span ∈ l.spans entries ↔ ∃ e ∈ entries, e.node.rule = l.rule ∧ e.node.chars = span := by
  simp [spans, and_assoc]

set_option maxRecDepth 4096 in
/-- Zero is an ordinal of its own in "1,000th". -/
theorem thousandth_pieces : ∃ entries notices,
    (ruleSetWith usualReadings).apply "1,000th".toList.toArray = .ok (entries, notices) ∧
      Literal.grouped.spans entries = [⟨0, 5⟩] ∧ Literal.ordinal.spans entries = [⟨2, 7⟩] ∧
      ∀ d ∈ entries, ∀ e ∈ entries, ∀ l k : Literal, d.node.rule = l.rule →
        e.node.rule = k.rule → d.node.chars.start < e.node.chars.start →
          e.node.chars.start < d.node.chars.stop → d.node.chars.stop ≤ e.node.chars.stop ∧
            Piece "1,000th".toList.toArray l k d.node.chars.start.toNat
              e.node.chars.start.toNat := by
  have places : ((ruleSetWith usualReadings).apply "1,000th".toList.toArray).toOption.map
      (fun found => (Literal.grouped.spans found.1, Literal.ordinal.spans found.1)) =
        some ([⟨0, 5⟩], [⟨2, 7⟩]) := by
    rw [RuleSet.apply_eq_listed]
    decide +kernel
  obtain ⟨⟨entries, notices⟩, ran, both⟩ := exists_ok_of_map places
  obtain ⟨grouped, ordinal⟩ := Prod.mk.inj both
  exact ⟨entries, notices, ran, grouped, ordinal,
    literal_pieces usualReadings 16 4000 _ _ _ ran⟩

/-- The digits of ".25" are a number of their own. -/
theorem point_twenty_five_pieces : ∃ entries notices,
    (ruleSetWith usualReadings).apply ".25".toList.toArray = .ok (entries, notices) ∧
      ∃ d ∈ entries, ∃ e ∈ entries, d.node.rule = Literal.decimal.rule ∧
        e.node.rule = Literal.plain.rule ∧ d.node.chars = ⟨0, 3⟩ ∧ e.node.chars = ⟨1, 3⟩ := by
  have places : ((ruleSetWith usualReadings).apply ".25".toList.toArray).toOption.map
      (fun found => (Literal.decimal.spans found.1, Literal.plain.spans found.1)) =
        some ([⟨0, 3⟩], [⟨1, 3⟩]) := by
    rw [RuleSet.apply_eq_listed]
    decide +kernel
  obtain ⟨⟨entries, notices⟩, returned, both⟩ := exists_ok_of_map places
  obtain ⟨decimal, plain⟩ := Prod.mk.inj both
  obtain ⟨d, left, first, whole⟩ := Literal.mem_spans.mp (decimal ▸ List.mem_singleton_self _)
  obtain ⟨e, right, second, part⟩ := Literal.mem_spans.mp (plain ▸ List.mem_singleton_self _)
  exact ⟨entries, notices, returned, d, left, e, right, first, second, whole, part⟩

end Forests

end Reckon.English
