import Mathlib.Data.Nat.Digits.Lemmas
import Reckon.Clock.IsoText
import Reckon.Proofs.Clock.Midnights
import Reckon.Proofs.Text.Digits

/-!
# The text of a moment read back

The text of a moment gives date, time and offset with fixed numbers of digits, so each part is read
back where it was written. An offset with seconds is the one that is not: the reader wants the text
to end after the minutes.
-/

set_option autoImplicit false

namespace Reckon.IsoText

/-! Padded numbers. -/

section Padded

variable {width : Nat} {n : Int} {cs : List Char}

theorem to_list_padded (nonneg : 0 ≤ n) : (padded width n).toList =
    List.replicate (width - (Nat.toDigits 10 n.toNat).length) '0' ++ Nat.toDigits 10 n.toNat := by
  obtain ⟨k, rfl⟩ := Int.eq_ofNat_of_zero_le nonneg
  have sign : ¬(k : Int) < 0 := by omega
  have decimal : (toString k).toList = Nat.toDigits 10 k := String.toList_ofList
  simp only [padded, Failure.paddedInt, if_neg sign, Int.natAbs_natCast, Int.toNat_natCast,
    String.toList_append, String.toList_ofList, decimal, ← String.length_toList]
  simp

theorem is_digit_of_mem_padded (nonneg : 0 ≤ n) :
    ∀ c ∈ (padded width n).toList, c.isDigit = true := by
  intro c member
  rw [to_list_padded nonneg] at member
  rcases List.mem_append.mp member with zeros | decimal
  · rw [List.eq_of_mem_replicate zeros]
    decide
  · exact Nat.isDigit_of_mem_toDigits (by decide) (by decide) decimal

theorem length_padded (nonneg : 0 ≤ n) (positive : 0 < width) (fits : n < 10 ^ width) :
    (padded width n).toList.length = width := by
  have short := (Nat.length_toDigits_le_iff (b := 10) (n := n.toNat) (by decide) positive).mpr (by
    zify
    omega)
  rw [to_list_padded nonneg, List.length_append, List.length_replicate]
  omega

theorem ascii_digit?_eq {c : Char} (digit : c.isDigit = true) : ∃ value,
    asciiDigit? c = some value ∧ Text.digitValue? c = some value := by
  have both : ('0' ≤ c && c ≤ '9') = true := digit
  obtain ⟨low, high⟩ := (Bool.and_eq_true _ _).mp both
  refine ⟨c.toNat - 48, by rw [asciiDigit?, if_pos both], ?_⟩
  have codes : 48 ≤ c.toNat ∧ c.toNat ≤ 57 := ⟨of_decide_eq_true low, of_decide_eq_true high⟩
  simp [Text.digitValue?, codes.1, codes.2, show c.toNat < 128 by omega]

theorem fixed_digits_append (ascii : ∀ c ∈ cs, c.isDigit = true) (before : Nat) (rest : List Char) :
    fixedDigits cs.length before (cs ++ rest) =
      some ((cs.filterMap Text.digitValue?).foldl (fun n d => 10 * n + d) before, rest) := by
  induction cs generalizing before with
  | nil => rfl
  | cons c cs ih =>
      obtain ⟨value, here, known⟩ := ascii_digit?_eq (ascii c List.mem_cons_self)
      have later := ih (fun d member => ascii d (List.mem_cons_of_mem _ member))
        (10 * before + value)
      simp only [List.length_cons, List.cons_append, fixedDigits, here, later,
        List.filterMap_cons, known, List.foldl_cons]

theorem read_nat_padded (nonneg : 0 ≤ n) : Text.readNat (padded width n).toList = n.toNat := by
  have zero : Text.digitValue? '0' = some 0 := by decide
  rw [to_list_padded nonneg]
  generalize width - (Nat.toDigits 10 n.toNat).length = count
  induction count with
  | zero => exact Text.read_nat_to_digits n.toNat
  | succ count ih =>
      rw [List.replicate_succ, List.cons_append]
      simpa [Text.readNat, zero] using ih

theorem digits_padded (nonneg : 0 ≤ n) (positive : 0 < width) (fits : n < 10 ^ width)
    (rest : List Char) : digits width ((padded width n).toList ++ rest) = some (n, rest) := by
  have ascii : ∀ c ∈ (padded width n).toList, c.isDigit = true := is_digit_of_mem_padded nonneg
  have read := fixed_digits_append ascii 0 rest
  rw [length_padded nonneg positive fits] at read
  have number : Text.readNat (padded width n).toList = n.toNat := read_nat_padded nonneg
  rw [Text.readNat] at number
  rw [digits, read, number, Option.map_some]
  simp only [Int.toNat_of_nonneg nonneg]

theorem head?_padded_ne (nonneg : 0 ≤ n) (positive : 0 < width) (fits : n < 10 ^ width)
    (rest : List Char) {mark : Char} (other : mark.isDigit = false) :
    ((padded width n).toList ++ rest).head? ≠ some mark := by
  have long := length_padded nonneg positive fits
  have ascii : ∀ c ∈ (padded width n).toList, c.isDigit = true := is_digit_of_mem_padded nonneg
  cases shape : (padded width n).toList with
  | nil =>
      rw [shape, List.length_nil] at long
      omega
  | cons c cs =>
      intro same
      obtain rfl : c = mark := Option.some.inj same
      rw [ascii c (by rw [shape]; exact .head _)] at other
      cases other

end Padded

/-! The parts of a text. -/

section Parts

variable {rest : List Char}

theorem digits_two {n : Int} (bounds : 0 ≤ n ∧ n < 100) (rest : List Char) :
    digits 2 ((padded 2 n).toList ++ rest) = some (n, rest) :=
  digits_padded bounds.1 (by decide) (by norm_num; exact bounds.2) rest

theorem extended_part_append (year : Int) {month day : Int} (months : 0 ≤ month ∧ month < 100)
    (days : 0 ≤ day ∧ day < 100) (rest : List Char) :
    extendedPart year ((padded 2 month).toList ++ '-' :: ((padded 2 day).toList ++ rest)) =
      some (⟨year, month, day⟩, rest) := by
  have letter : ((padded 2 month).toList ++ '-' :: ((padded 2 day).toList ++ rest)).head? ≠
      some 'W' :=
    head?_padded_ne months.1 (by decide) (by norm_num; exact months.2) _ (by decide)
  rw [extendedPart, if_neg letter, digits_two months]
  simp [atDateEnd, digits_two days]

theorem fraction_part_append {n : Int} (bounds : 0 ≤ n ∧ n < 1000000) {sign : Char}
    (signed : sign = '+' ∨ sign = '-') :
    fractionPart ((padded 6 n).toList ++ sign :: rest) = some (n, sign :: rest) := by
  have long : (padded 6 n).toList.length = 6 :=
    length_padded bounds.1 (by decide) (by norm_num; exact bounds.2)
  have ascii : ∀ c ∈ (padded 6 n).toList, (asciiDigit? c).isSome = true := by
    intro c member
    obtain ⟨value, known, -⟩ := ascii_digit?_eq (is_digit_of_mem_padded bounds.1 c member)
    rw [known]
    rfl
  have ends : (asciiDigit? sign).isSome = false := by
    rcases signed with rfl | rfl <;> decide
  have run : ((padded 6 n).toList ++ sign :: rest).takeWhile (fun c => (asciiDigit? c).isSome) =
      (padded 6 n).toList := by
    rw [List.takeWhile_append_of_pos ascii, List.takeWhile_cons_of_neg (by simp [ends]),
      List.append_nil]
  have filled : (padded 6 n).toList.isEmpty = false := by
    rw [List.isEmpty_eq_false_iff, ← List.length_pos_iff, long]
    decide
  have whole : (padded 6 n).toList.take 6 = (padded 6 n).toList :=
    List.take_of_length_le (by rw [long])
  simp only [fractionPart, run, filled, Bool.false_eq_true, if_false, whole, long, Nat.sub_self,
    List.replicate_zero, List.append_nil, read_nat_padded bounds.1, List.drop_left' long,
    Int.toNat_of_nonneg bounds.1]

def secondsText (t : LocalTime) : List Char :=
  (padded 2 t.second).toList ++
    if t.microsecond = 0 then [] else '.' :: (padded 6 t.microsecond).toList

theorem to_list_time_text (t : LocalTime) : (timeText t).toList =
    (padded 2 t.hour).toList ++ ':' :: ((padded 2 t.minute).toList ++ ':' :: secondsText t) := by
  unfold timeText secondsText
  split <;> simp [*, String.toList_append]

theorem fields_bounds (t : LocalTime) : (0 ≤ t.hour ∧ t.hour < 24) ∧
    (0 ≤ t.minute ∧ t.minute < 60) ∧ (0 ≤ t.second ∧ t.second < 60) ∧
      (0 ≤ t.microsecond ∧ t.microsecond < 1000000) := by
  simp only [LocalTime.hour, LocalTime.minute, LocalTime.second, LocalTime.microsecond,
    LocalTime.ticksPerDay, LocalTime.ticksPerHour, LocalTime.ticksPerMinute,
    LocalTime.ticksPerSecond]
  omega

theorem seconds_part_append (t : LocalTime) {sign : Char} (signed : sign = '+' ∨ sign = '-') :
    secondsPart true (':' :: (secondsText t ++ sign :: rest)) =
      some (t.second, t.microsecond, sign :: rest) := by
  obtain ⟨-, -, seconds, fraction⟩ := fields_bounds t
  have mark : isFractionMark (some sign) = false := by
    rcases signed with rfl | rfl <;> decide
  have two := digits_two ⟨seconds.1, by omega⟩
  unfold secondsText
  split
  · rename_i none
    simp [secondsPart, startsOffset, two, mark, none]
  · simp [secondsPart, startsOffset, two, isFractionMark, fraction_part_append fraction signed]

theorem time_part_append (t : LocalTime) {sign : Char} (signed : sign = '+' ∨ sign = '-') :
    timePart true ((timeText t).toList ++ sign :: rest) =
      some ((t.hour, t.minute, t.second, t.microsecond), sign :: rest) := by
  obtain ⟨hours, minutes, -, -⟩ := fields_bounds t
  simp [timePart, to_list_time_text, startsOffset, digits_two ⟨hours.1, by omega⟩,
    digits_two ⟨minutes.1, by omega⟩, seconds_part_append t signed]

theorem offset_part_append {hours minutes : Int} (hour : 0 ≤ hours ∧ hours < 100)
    (minute : 0 ≤ minutes ∧ minutes < 100) {sign : Char} (signed : sign = '+' ∨ sign = '-') :
    offsetPart (sign :: ((padded 2 hours).toList ++ ':' :: ((padded 2 minutes).toList ++ rest))) =
      some (some (if sign = '-' then -(3600 * hours + 60 * minutes)
        else 3600 * hours + 60 * minutes), rest) := by
  have long : (padded 2 minutes).toList.length = 2 :=
    length_padded minute.1 (by decide) (by norm_num; exact minute.2)
  have filled : padded 2 minutes ≠ "" := by
    intro none
    rw [none] at long
    cases long
  rcases signed with rfl | rfl
  · simp [offsetPart, digits_two hour, digits_two minute, filled]
  · simp [offsetPart, digits_two hour, digits_two minute, filled]

def signOf (offset : Int) : Char :=
  if offset < 0 then '-' else '+'

theorem sign_of_cases (offset : Int) : signOf offset = '+' ∨ signOf offset = '-' := by
  unfold signOf
  split <;> simp

def offsetSeconds (offset : Int) : List Char :=
  if (offset.natAbs : Int) % 60 = 0 then []
  else ':' :: (padded 2 ((offset.natAbs : Int) % 60)).toList

theorem to_list_offset_text (offset : Int) : (offsetText offset).toList =
    signOf offset :: ((padded 2 ((offset.natAbs : Int) / 3600)).toList ++
      ':' :: ((padded 2 ((offset.natAbs : Int) % 3600 / 60)).toList ++ offsetSeconds offset)) := by
  by_cases negative : offset < 0 <;> by_cases whole : (offset.natAbs : Int) % 60 = 0 <;>
    simp only [offsetText, signOf, offsetSeconds, negative, whole, if_true, if_false,
      String.toList_append] <;> simp

theorem offset_part_offset_text {offset : Int} (short : -86400 < offset ∧ offset < 86400) :
    ∃ read, offsetPart (offsetText offset).toList = some (some read, offsetSeconds offset) ∧
      (offset % 60 = 0 → read = offset) := by
  rw [to_list_offset_text, offset_part_append (by omega) (by omega) (sign_of_cases offset)]
  refine ⟨_, rfl, fun whole => ?_⟩
  by_cases negative : offset < 0
  · rw [if_pos (by rw [signOf, if_pos negative])]
    omega
  · rw [if_neg (by rw [signOf, if_neg negative]; decide)]
    omega

end Parts

/-! What is read. -/

section Readings

variable {r : Reading} {text : String}

theorem is_valid_of_checked {s : Reading} (checked : s.checked = some r) : r.isValid = true := by
  unfold Reading.checked at checked
  split at checked
  · cases checked
    assumption
  · cases checked

/-- Only texts with possible parts are read. -/
theorem is_valid_of_of_text? (read : Reading.ofText? text = some r) : r.isValid = true := by
  unfold Reading.ofText? at read
  obtain ⟨⟨year, rest⟩, -, read⟩ := Option.bind_eq_some_iff.mp read
  simp only at read
  -- the two forms of a date are followed by the same
  split at read
  all_goals
    obtain ⟨⟨date, rest⟩, -, read⟩ := Option.bind_eq_some_iff.mp read
    simp only at read
    split at read
    · exact is_valid_of_checked read
    · obtain ⟨⟨⟨hour, minute, second, microsecond⟩, rest⟩, -, read⟩ :=
        Option.bind_eq_some_iff.mp read
      obtain ⟨⟨offset, rest⟩, -, read⟩ := Option.bind_eq_some_iff.mp read
      simp only at read
      split at read
      · exact is_valid_of_checked read
      · cases read

theorem short_of_is_valid (valid : r.isValid = true) {offset : Int}
    (known : r.offset = some offset) : -86400 < offset ∧ offset < 86400 := by
  rw [Reading.isValid, known, Bool.and_eq_true, decide_eq_true_iff] at valid
  omega

theorem representable_of_is_valid (valid : r.isValid = true) :
    (LocalTime.make r.date r.hour r.minute r.second r.microsecond).isRepresentable = true := by
  simp only [Reading.isValid, LocalTime.isTimeOfDay, Bool.and_eq_true, decide_eq_true_eq] at valid
  obtain ⟨⟨date, time⟩, -⟩ := valid
  have proper := ((Date.is_valid_iff r.date).mp date).2
  have within := Moment.is_representable_midnight proper
  rw [date, Moment.is_representable_iff, LocalTime.midnight] at within
  rw [Moment.is_representable_iff, LocalTime.make]
  simp only [LocalTime.ticksPerDay, LocalTime.ticksPerHour, LocalTime.ticksPerMinute,
    LocalTime.ticksPerSecond] at *
  omega

end Readings

/-! Whole texts. -/

section Texts

variable {m : Moment}

theorem make_fields (t : LocalTime) :
    LocalTime.make t.date t.hour t.minute t.second t.microsecond = t := by
  cases t with
  | mk ticks =>
      simp only [LocalTime.make, Date.day_number_of_day_number, LocalTime.date, LocalTime.dayNumber,
        LocalTime.hour, LocalTime.minute, LocalTime.second, LocalTime.microsecond,
        LocalTime.ticksPerDay, LocalTime.ticksPerHour, LocalTime.ticksPerMinute,
        LocalTime.ticksPerSecond, LocalTime.mk.injEq]
      omega

theorem date_is_valid {t : LocalTime} (representable : t.isRepresentable = true) :
    t.date.isValid = true := by
  rw [← Moment.is_representable_midnight (LocalTime.proper_date t), Moment.is_representable_iff,
    LocalTime.midnight, LocalTime.date, Date.day_number_of_day_number, LocalTime.dayNumber]
  rw [Moment.is_representable_iff] at representable
  simp only [LocalTime.ticks_per_day_eq] at *
  omega

theorem to_list_render (m : Moment) : (render m).toList =
    (padded 4 m.date.year).toList ++ '-' :: ((padded 2 m.date.month).toList ++
      '-' :: ((padded 2 m.date.day).toList ++
        'T' :: ((timeText m.reading).toList ++ (offsetText m.offset).toList))) := by
  simp [render, renderWith, dateText, String.toList_append]

def readingOf (m : Moment) : Reading :=
  ⟨m.date, m.reading.hour, m.reading.minute, m.reading.second, m.reading.microsecond,
    some m.offset⟩

theorem checked_reading_of (representable : m.reading.isRepresentable = true)
    (short : -86400 < m.offset ∧ m.offset < 86400) :
    (readingOf m).checked = some (readingOf m) := by
  obtain ⟨hours, minutes, seconds, fraction⟩ := fields_bounds m.reading
  have date : m.date.isValid = true := date_is_valid representable
  have size : m.offset.natAbs < 86400 := by omega
  have time : LocalTime.isTimeOfDay m.reading.hour m.reading.minute m.reading.second
      m.reading.microsecond = true := by
    simp [LocalTime.isTimeOfDay, hours, minutes, seconds, fraction]
  rw [Reading.checked, Reading.isValid, readingOf]
  simp [date, time, size]

/-- The text of a moment is read back, unless its offset has seconds; then it is not read. -/
theorem of_text?_render (representable : m.reading.isRepresentable = true)
    (short : -86400 < m.offset ∧ m.offset < 86400) :
    Reading.ofText? (render m) = if m.offset % 60 = 0 then some (readingOf m) else none := by
  have valid := date_is_valid representable
  obtain ⟨⟨lowYear, highYear⟩, ⟨lowMonth, highMonth⟩, lowDay, highDay⟩ :=
    (Date.is_valid_iff m.date).mp valid
  have length := Date.month_length_bounds m.date.year m.date.month
  have year : ∀ rest, digits 4 ((padded 4 m.date.year).toList ++ rest) =
      some (m.date.year, rest) :=
    digits_padded (by omega) (by decide) (by norm_num; omega)
  obtain ⟨read, offset, whole⟩ := offset_part_offset_text short
  have time : timePart true ((timeText m.reading).toList ++ (offsetText m.offset).toList) =
      some ((m.reading.hour, m.reading.minute, m.reading.second, m.reading.microsecond),
        (offsetText m.offset).toList) := by
    rw [to_list_offset_text]
    exact time_part_append m.reading (sign_of_cases m.offset)
  have months : 0 ≤ m.date.month ∧ m.date.month < 100 := by omega
  have days : 0 ≤ m.date.day ∧ m.date.day < 100 := by omega
  have date := extended_part_append m.date.year months days
    ('T' :: ((timeText m.reading).toList ++ (offsetText m.offset).toList))
  rw [Reading.ofText?, to_list_render]
  simp only [year, date, time, offset, Option.bind_eq_bind, Option.bind_some, List.head?_cons,
    List.tail_cons, decide_true, if_true]
  by_cases minutely : m.offset % 60 = 0
  · have none : offsetSeconds m.offset = [] := by
      rw [offsetSeconds, if_pos (by omega)]
    rw [if_pos minutely, none, whole minutely]
    exact checked_reading_of representable short
  · have some : (offsetSeconds m.offset).isEmpty = false := by
      rw [offsetSeconds, if_neg (by omega)]
      rfl
    rw [if_neg minutely, some]
    rfl

end Texts

end Reckon.IsoText
