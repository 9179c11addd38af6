import Reckon.English.Numbers
import Mathlib.Algebra.Order.Ring.Int
import Mathlib.Tactic.Linarith

/-!
# What a sequence of number words amounts to

A number in words is built up by multiplication and addition, and one sequence of words may be
bracketed in many ways. `tally` reads the sequence from left to right without any brackets: plain
words add to the running block, "hundred" multiplies the block, and a larger power multiplies
and closes it. Whatever the brackets, what is built is the tally of the words.
-/

set_option autoImplicit false

namespace Reckon.English

/-- A number word. A plain one ends in units or in tens; a power of ten is a hundred at least. -/
inductive Word where
  | plain (value : Int) (inTens : Bool)
  | power (exponent : Nat) (large : 2 ≤ exponent)
deriving DecidableEq

namespace Word

def grain : Word → Int
  | plain _ inTens => if inTens then 1 else 0
  | power exponent _ => exponent

def number : Word → NumberValue
  | plain value inTens =>
    { value := .int value, grain := some (grain (plain value inTens)), fromWords := true }
  | power exponent _ =>
    { value := .int (Binary64.tenTo exponent), grain := some exponent, multipliable := true,
      fromWords := true }

theorem number_injective {a b : Word} (same : a.number = b.number) : a = b := by
  cases a with
  | plain v t =>
      cases b with
      | plain w u => cases t <;> cases u <;> simp_all [number, grain]
      | power e large => simp [number] at same
  | power e large =>
      cases b with
      | plain w u => simp [number] at same
      | power f _ =>
          simp only [number, NumberValue.mk.injEq, Option.some.injEq, Int.ofNat_inj] at same
          simp [same.2.1]

end Word

/-- A count under way: the sum of the closed blocks, and the running one. -/
structure Count where
  closed : Int
  running : Int

namespace Count

def block (c : Count) : Int :=
  if c.running = 0 then 1 else c.running

def add (c : Count) : Word → Count
  | .plain value _ => { c with running := c.running + value }
  | .power exponent _ =>
    if exponent = 2 then { c with running := c.block * 100 }
    else ⟨c.closed + c.block * 10 ^ exponent, 0⟩

def sum (c : Count) : Int :=
  c.closed + c.running

end Count

def tally (ws : List Word) : Int :=
  (ws.foldl Count.add ⟨0, 0⟩).sum

/-- What multiplication and addition may build of a sequence of words. -/
inductive Reads : List Word → NumberValue → Prop
  | word (w : Word) : Reads [w] w.number
  | scale {ws vs : List Word} {a p n : NumberValue} (left : Reads ws a) (right : Reads vs p)
      (bare : p.multipliable = true) (scaled : Numbers.scale a p = some n) : Reads (ws ++ vs) n
  | join {ws vs : List Word} {a b n : NumberValue} (left : Reads ws a) (right : Reads vs b)
      (whole : Numbers.isWordNumber a = true) (joined : Numbers.join a b = some n) :
      Reads (ws ++ vs) n

namespace Numbers

theorem scale_eq_some_iff (a p n : NumberValue) :
    scale a p = some n ↔ ∃ factor power small large, a.value.int? = some factor ∧
      p.value.int? = some power ∧ a.grain = some small ∧ p.grain = some large ∧ 1 ≤ factor ∧
      factor < 1000 ∧ small < large ∧
      n = { value := .int (factor * power), grain := some large, fromWords := true } := by
  unfold scale
  split
  · rename_i factor power small large hf hp hs hl
    simp only [hf, hp, hs, hl, Option.some.injEq, exists_and_left, exists_eq_left',
      Bool.and_eq_true, decide_eq_true_eq, Option.ite_none_right_eq_some]
    constructor
    · rintro ⟨⟨⟨least, most⟩, grains⟩, same⟩
      exact ⟨least, most, grains, same.symm⟩
    · rintro ⟨least, most, grains, same⟩
      exact ⟨⟨⟨least, most⟩, grains⟩, same.symm⟩
  · rename_i none
    constructor
    · intro same
      cases same
    · rintro ⟨factor, power, small, large, hf, hp, hs, hl, -⟩
      exact (none factor power small large hf hp hs hl).elim

theorem join_eq_some_iff (a b n : NumberValue) :
    join a b = some n ↔ ∃ left right grain, a.value.int? = some left ∧
      b.value.int? = some right ∧ a.grain = some grain ∧ 1 ≤ grain ∧
      left % (10 : Int) ^ grain.toNat = 0 ∧ 0 < right ∧ right < (10 : Int) ^ grain.toNat ∧
      n = { value := .int (left + right), grain := b.grain, fromWords := true } := by
  have unit : ∀ e : Nat, ((Binary64.tenTo e : Nat) : Int) = (10 : Int) ^ e := by
    intro e
    simp [Binary64.tenTo]
  unfold join
  split
  · rename_i left right grain hl hr hg
    simp only [hl, hr, hg, unit, Option.some.injEq, exists_and_left, exists_eq_left',
      Bool.and_eq_true, decide_eq_true_eq, Option.ite_none_right_eq_some]
    constructor
    · rintro ⟨⟨⟨⟨least, whole⟩, positive⟩, less⟩, same⟩
      exact ⟨least, whole, positive, less, same.symm⟩
    · rintro ⟨least, whole, positive, less, same⟩
      exact ⟨⟨⟨⟨least, whole⟩, positive⟩, less⟩, same.symm⟩
  · rename_i none
    constructor
    · intro same
      cases same
    · rintro ⟨left, right, grain, hl, hr, hg, -⟩
      exact (none left right grain hl hr hg).elim

end Numbers

/-! Runs of a count. -/

theorem foldl_add_plain (ws : List Word) (plain : ∀ e large, Word.power e large ∉ ws) :
    ∃ sum, ∀ c : Count, ws.foldl Count.add c = { c with running := c.running + sum } := by
  induction ws with
  | nil => exact ⟨0, fun c => by simp⟩
  | cons w ws ih =>
      cases w with
      | power e large => exact absurd List.mem_cons_self (plain e large)
      | plain value inTens =>
          obtain ⟨sum, adds⟩ := ih fun e large member => plain e large
            (List.mem_cons_of_mem _ member)
          refine ⟨value + sum, fun c => ?_⟩
          rw [List.foldl_cons, adds, Count.add, Int.add_assoc]

theorem foldl_add_small (ws : List Word) (small : ∀ e large, Word.power e large ∈ ws → e = 2)
    (c : Count) : (ws.foldl Count.add c).closed = c.closed := by
  induction ws generalizing c with
  | nil => rfl
  | cons w ws ih =>
      rw [List.foldl_cons, ih fun e large member => small e large (List.mem_cons_of_mem _ member)]
      cases w with
      | plain value inTens => rfl
      | power e large => rw [Count.add, if_pos (small e large List.mem_cons_self)]

/-- What is known of a sequence of words that has been built to a value and a grain: it holds no
larger power than the value, it adds the value to what was closed before, and if its grain is a
thousand or more it leaves no block running. -/
structure Amounts (ws : List Word) (value grain : Int) : Prop where
  bounded : ∀ e large, Word.power e large ∈ ws → (10 : Int) ^ e ≤ value
  adds : ∀ closed, (ws.foldl Count.add ⟨closed, 0⟩).sum = closed + value
  closes : 3 ≤ grain → ∀ c, (ws.foldl Count.add c).running = 0

section Amounts

variable {ws vs : List Word} {a b left right grain : Int}

theorem amounts_plain (value : Int) (inTens : Bool) :
    Amounts [.plain value inTens] value (Word.grain (.plain value inTens)) := by
  refine ⟨by simp, fun closed => by simp [Count.add, Count.sum], fun large => ?_⟩
  cases inTens <;> simp [Word.grain] at large

theorem amounts_power (e : Nat) (large : 2 ≤ e) : Amounts [.power e large] (10 ^ e) e := by
  refine ⟨fun f _ member => ?_, fun closed => ?_, fun closing c => ?_⟩
  · simp only [List.mem_singleton, Word.power.injEq] at member
    rw [member]
  · by_cases hundred : e = 2
    · subst hundred
      simp [Count.add, Count.sum, Count.block]
    · simp [Count.add, Count.sum, Count.block, hundred]
  · have other : e ≠ 2 := by omega
    simp [Count.add, other]

theorem lt_of_pow_lt {e f : Nat} {n : Int} (least : (10 : Int) ^ e ≤ n) (most : n < 10 ^ f) :
    e < f :=
  (pow_lt_pow_iff_right₀ (by norm_num : (1 : Int) < 10)).mp (least.trans_lt most)

/-- A factor below a thousand leaves the blocks before it alone, so a power after it scales it. -/
theorem Amounts.scale (amounts : Amounts ws a grain) (least : 1 ≤ a) (most : a < 1000) (e : Nat)
    (large : 2 ≤ e) : Amounts (ws ++ [.power e large]) (a * 10 ^ e) e := by
  have unit : (0 : Int) < 10 ^ e := by positivity
  refine ⟨fun f _ member => ?_, fun closed => ?_, fun closing c => ?_⟩
  · rcases List.mem_append.mp member with inside | last
    · have below := amounts.bounded f _ inside
      nlinarith
    · simp only [List.mem_singleton, Word.power.injEq] at last
      rw [last]
      nlinarith
  · have small : ∀ f large, Word.power f large ∈ ws → f = 2 := by
      intro f atLeast member
      have below := lt_of_pow_lt (f := 3) (amounts.bounded f _ member) (by omega)
      omega
    have unmoved := foldl_add_small ws small ⟨closed, 0⟩
    have sum := amounts.adds closed
    rw [List.foldl_append]
    generalize ws.foldl Count.add ⟨closed, 0⟩ = c at unmoved sum
    obtain ⟨total, running⟩ := c
    simp only [Count.sum] at unmoved sum
    have running : running = a := by omega
    subst running unmoved
    have block : ∀ t, Count.block ⟨t, running⟩ = running := by
      intro t
      rw [Count.block, if_neg (by simp only; omega)]
    simp only [List.foldl_cons, List.foldl_nil, Count.add, Count.sum, block]
    split
    · rename_i hundred
      rw [hundred]
      norm_num
    · simp
  · have other : e ≠ 2 := by omega
    simp [List.foldl_append, Count.add, other]

/-- What is added after a number lies below its grain, so it meets no running block, or only adds
to it. -/
theorem Amounts.join (amounts : Amounts ws left grain) (others : Amounts vs right b)
    (nonneg : 0 ≤ left) (positive : 0 < right) (less : right < (10 : Int) ^ grain.toNat) :
    Amounts (ws ++ vs) (left + right) b := by
  refine ⟨fun f large member => ?_, fun closed => ?_, fun closing c => ?_⟩
  · rcases List.mem_append.mp member with first | second
    · have below := amounts.bounded f large first
      omega
    · have below := others.bounded f large second
      omega
  · have sum := amounts.adds closed
    rw [List.foldl_append]
    by_cases closing : 3 ≤ grain
    · have empty := amounts.closes closing ⟨closed, 0⟩
      generalize ws.foldl Count.add ⟨closed, 0⟩ = c at empty sum
      obtain ⟨total, running⟩ := c
      simp only [Count.sum] at empty sum
      subst empty
      rw [others.adds total]
      omega
    · have plain : ∀ e large, Word.power e large ∉ vs := by
        intro e large member
        have below := lt_of_pow_lt (others.bounded e large member) less
        omega
      obtain ⟨more, adds⟩ := foldl_add_plain vs plain
      have alone := others.adds 0
      rw [adds] at alone ⊢
      simp only [Count.sum] at alone sum ⊢
      omega
  · rw [List.foldl_append]
    exact others.closes closing _

end Amounts

theorem nonneg_of_is_non_negative {n : NumberValue} {v : Int} (value : n.value = .int v)
    (whole : Numbers.isNonNegative n = true) : 0 ≤ v := by
  rw [Numbers.isNonNegative, value] at whole
  simpa [Numeral.le, Numeral.int?] using whole

/-- Only a power of ten alone may be a second factor. -/
theorem Reads.eq_power {ws : List Word} {n : NumberValue} (reads : Reads ws n)
    (bare : n.multipliable = true) :
    ∃ e large, ws = [.power e large] ∧ n = (Word.power e large).number := by
  cases reads with
  | word w =>
      cases w with
      | plain value inTens => cases bare
      | power e large => exact ⟨e, large, rfl, rfl⟩
  | scale left right bareRight scaled =>
      obtain ⟨factor, power, small, high, -, -, -, -, -, -, -, made⟩ :=
        (Numbers.scale_eq_some_iff _ _ _).mp scaled
      rw [made] at bare
      cases bare
  | join left right whole joined =>
      obtain ⟨x, y, grain, -, -, -, -, -, -, -, made⟩ :=
        (Numbers.join_eq_some_iff _ _ _).mp joined
      rw [made] at bare
      cases bare

theorem Reads.amounts {ws : List Word} {n : NumberValue} (reads : Reads ws n) :
    ∃ value grain, n.value = .int value ∧ n.grain = some grain ∧ Amounts ws value grain := by
  induction reads with
  | word w =>
      cases w with
      | plain value inTens => exact ⟨_, _, rfl, rfl, amounts_plain value inTens⟩
      | power e large =>
          refine ⟨10 ^ e, e, ?_, rfl, amounts_power e large⟩
          simp [Word.number, Binary64.tenTo]
  | @scale ws vs a p n left right bare scaled ihLeft ihRight =>
      obtain ⟨e, large, rfl, rfl⟩ := right.eq_power bare
      obtain ⟨value, grain, hv, -, amounts⟩ := ihLeft
      obtain ⟨factor, power, small, high, hf, hp, -, hl, least, most, -, rfl⟩ :=
        (Numbers.scale_eq_some_iff _ _ _).mp scaled
      rw [hv] at hf
      cases hf
      cases hp
      cases hl
      refine ⟨value * 10 ^ e, e, ?_, rfl, amounts.scale least most e large⟩
      simp [Binary64.tenTo]
  | @join ws vs a b n left right whole joined ihLeft ihRight =>
      obtain ⟨value, grain, hv, hg, amounts⟩ := ihLeft
      obtain ⟨other, last, ho, hl, others⟩ := ihRight
      obtain ⟨x, y, g, hx, hy, hg', -, -, positive, less, rfl⟩ :=
        (Numbers.join_eq_some_iff _ _ _).mp joined
      rw [hv] at hx
      rw [ho] at hy
      rw [hg] at hg'
      cases hx
      cases hy
      cases hg'
      have nonneg : 0 ≤ value := by
        simp only [Numbers.isWordNumber, Bool.and_eq_true] at whole
        exact nonneg_of_is_non_negative hv whole.2
      exact ⟨_, _, rfl, hl, amounts.join others nonneg positive less⟩

/-- However a sequence of words is bracketed, it amounts to its tally. -/
theorem Reads.value_eq {ws : List Word} {n : NumberValue} (reads : Reads ws n) :
    n.value = .int (tally ws) := by
  obtain ⟨value, grain, same, -, amounts⟩ := reads.amounts
  rw [same, tally, amounts.adds 0, Int.zero_add]

end Reckon.English
