import Reckon.Proofs.Resolution.Grounding

/-!
# Which intervals resolve

An interval resolves if its end does not read before its start. That is the order of instants where
both have one offset from UTC. Where the offsets differ, readings lag by the difference: around a
change of the clock an interval may be refused whose end comes later, or resolve although it comes
earlier.
-/

set_option autoImplicit false

namespace Reckon

open Sequencing

namespace Moment

def setBack (a b : Moment) : Int :=
  (a.offset - b.offset) * LocalTime.ticksPerSecond

theorem set_back_eq_zero {a b : Moment} (same : a.offset = b.offset) : a.setBack b = 0 := by
  simp [setBack, same]

theorem is_before_iff (a b : Moment) :
    a.isBefore b = true ↔ a.instant < b.instant + b.setBack a := by
  have scaled := Int.sub_mul b.offset a.offset LocalTime.ticksPerSecond
  unfold isBefore instant Zone.instantUnder setBack
  rw [decide_eq_true_iff]
  omega

end Moment

theorem Grain.size_finer (a b : Grain) : (a.finer b).size = min a.size b.size := by
  unfold finer
  split
  · omega
  · omega

namespace Value

variable {c : Context} {start stop : TimeForm}

def between (start stop : TimeForm) (precision : Precision) (latent : Bool) : Value :=
  .datetime { form := .interval start stop, latent, precision }

theorem resolve_between (c : Context) (start stop : TimeForm) (precision : Precision)
    (latent : Bool) :
    (between start stop precision latent).resolve .datetime c =
      resolveInterval c start stop ⟨.interval start stop, latent, precision⟩ := rfl

/-- What the ends of an interval are grounded to: the end from the start, if its form is anchored,
and else from now. -/
structure Ends (c : Context) (start stop : TimeForm) (first last : Grounded) : Prop where
  start : start.ground c c.now = .ok first
  stop : stop.ground c (if stop.isAnchored then first.1 else c.now) = .ok last

theorem Ends.zones {first last : Grounded} (ends : Ends c start stop first last) :
    first.1.zone = c.zone ∧ last.1.zone = c.zone := by
  have starts := TimeForm.ground_grounds c start (z := c.zone) rfl first ends.start
  refine ⟨starts.zone, ?_⟩
  have stops := ends.stop
  split at stops
  · exact (TimeForm.ground_grounds c stop starts.zone last stops).zone
  · exact (TimeForm.ground_grounds c stop (z := c.zone) rfl last stops).zone

theorem Ends.resolve {first last : Grounded} (ends : Ends c start stop first last)
    (precision : Precision) (latent : Bool) :
    (between start stop precision latent).resolve .datetime c =
      if last.1.isBefore first.1 then
        .error (.resolution (.endsBeforeStart (IsoText.renderWith " " first.1)
          (IsoText.renderWith " " last.1)))
      else .ok (.interval first.1 last.1 (first.2.finer last.2) precision latent) := by
  rw [resolve_between, resolveInterval, ends.start, ok_bind]
  simp only
  rw [ends.stop, ok_bind]
  rfl

/-- An interval that resolves has ends, and they are its output. -/
theorem ends_of_resolve {precision : Precision} {latent : Bool} {output : Output}
    (ran : (between start stop precision latent).resolve .datetime c = .ok output) :
    ∃ first last, Ends c start stop first last ∧
      output = .interval first.1 last.1 (first.2.finer last.2) precision latent := by
  obtain ⟨first, starts, rest⟩ := (bind_ok_iff _ _ _).mp ran
  obtain ⟨last, stops, -⟩ := (bind_ok_iff _ _ _).mp rest
  have ends : Ends c start stop first last := ⟨starts, stops⟩
  rw [ends.resolve] at ran
  split at ran
  · cases ran
  · cases ran
    exact ⟨first, last, ends, rfl⟩

/-- An interval whose ends ground resolves exactly if the end is not before the start once the clock
is set back as it is between them; so it is in the order of instants between ends of one offset. The
output has these ends, in the zone of the context, and the finer of their grains. -/
theorem interval_resolves (c : Context) (start stop : TimeForm) (first last : Grounded)
    (ends : Ends c start stop first last) (precision : Precision) (latent : Bool) :
    (first.1.zone = c.zone ∧ last.1.zone = c.zone) ∧
    (first.1.instant + first.1.setBack last.1 ≤ last.1.instant →
      ∃ grain, grain.size = min first.2.size last.2.size ∧
        (between start stop precision latent).resolve .datetime c =
          .ok (.interval first.1 last.1 grain precision latent)) ∧
    (last.1.instant < first.1.instant + first.1.setBack last.1 →
      (between start stop precision latent).resolve .datetime c =
        .error (.resolution (.endsBeforeStart (IsoText.renderWith " " first.1)
          (IsoText.renderWith " " last.1)))) ∧
    (first.1.offset = last.1.offset →
      ((∃ output, (between start stop precision latent).resolve .datetime c = .ok output) ↔
        first.1.instant ≤ last.1.instant)) := by
  have order := Moment.is_before_iff last.1 first.1
  rw [ends.resolve]
  refine ⟨ends.zones, ?_, ?_, ?_⟩
  · intro late
    refine ⟨first.2.finer last.2, Grain.size_finer _ _, if_neg ?_⟩
    rw [order]
    omega
  · intro early
    exact if_pos (order.mpr early)
  · intro same
    rw [Moment.set_back_eq_zero same, Int.add_zero] at order
    split
    · rename_i early
      have back := order.mp early
      simp
      omega
    · rename_i late
      rw [order] at late
      simp
      omega

end Value

/-! Around a repeated hour. -/

/-- A minute after two in Paris on the day in 2013 on which the clock is set back from three to two:
before that, or under the fold after it. -/
def afterTwo (minute : Int) (fold : Bool) : Context :=
  { now := ⟨Zone.paris, LocalTime.make ⟨2013, 10, 27⟩ 2 minute 0 0, fold⟩ }

open Value TimeForm

/-- From 02:30 on, five minutes are an interval within one offset. -/
theorem five_minutes_resolves : ∃ last,
    Ends (afterTwo 30 false) .now (.shift [(.minute, 5)] 1)
      ((afterTwo 30 false).now, .second) (last, .minute) ∧
    (afterTwo 30 false).now.offset = last.offset ∧
    (∃ output, (between .now (.shift [(.minute, 5)] 1) .exact false).resolve .datetime
      (afterTwo 30 false) = .ok output) := by
  have starts : TimeForm.now.ground (afterTwo 30 false) (afterTwo 30 false).now =
      .ok ((afterTwo 30 false).now, .second) := ok_of_to_option (by decide +kernel)
  have stops : (TimeForm.shift [(.minute, 5)] 1).ground (afterTwo 30 false)
      (afterTwo 30 false).now = .ok ((afterTwo 35 false).now, .minute) :=
    ok_of_to_option (by decide +kernel)
  have ends : Ends (afterTwo 30 false) .now (.shift [(.minute, 5)] 1)
      ((afterTwo 30 false).now, .second) ((afterTwo 35 false).now, .minute) := ⟨starts, stops⟩
  have same : (afterTwo 30 false).now.offset = (afterTwo 35 false).now.offset := by
    decide +kernel
  have later : (afterTwo 30 false).now.instant ≤ (afterTwo 35 false).now.instant := by
    decide +kernel
  exact ⟨_, ends, same, ((interval_resolves _ _ _ _ _ ends .exact false).2.2.2 same).mpr later⟩

/-- Three quarters of an hour from 02:30 on, the clock shows 02:15 again and the interval is
refused; half an hour back from that 02:15 it showed 02:45, and the interval resolves. -/
theorem repeated_hour_misorders :
    (Context.make (.text "2013-10-27T02:30:00+02:00") "Europe/Paris" 0 0 =
        .ok (afterTwo 30 false) ∧
      ∃ last, Ends (afterTwo 30 false) .now (.shift [(.minute, 45)] 1)
          ((afterTwo 30 false).now, .second) (last, .minute) ∧
        (afterTwo 30 false).now.instant < last.instant ∧
        ∃ fault, (between .now (.shift [(.minute, 45)] 1) .exact false).resolve .datetime
          (afterTwo 30 false) = .error (.resolution fault)) ∧
    Context.make (.text "2013-10-27T02:15:00+01:00") "Europe/Paris" 0 0 = .ok (afterTwo 15 true) ∧
      ∃ last, Ends (afterTwo 15 true) .now (.shift [(.minute, 30)] (-1))
          ((afterTwo 15 true).now, .second) (last, .minute) ∧
        last.instant < (afterTwo 15 true).now.instant ∧
        ∃ output, (between .now (.shift [(.minute, 30)] (-1)) .exact false).resolve .datetime
          (afterTwo 15 true) = .ok output := by
  have before : Ends (afterTwo 30 false) .now (.shift [(.minute, 45)] 1)
      ((afterTwo 30 false).now, .second) ((afterTwo 15 true).now, .minute) :=
    ⟨ok_of_to_option (by decide +kernel), ok_of_to_option (by decide +kernel)⟩
  have after : Ends (afterTwo 15 true) .now (.shift [(.minute, 30)] (-1))
      ((afterTwo 15 true).now, .second) ((afterTwo 45 false).now, .minute) :=
    ⟨ok_of_to_option (by decide +kernel), ok_of_to_option (by decide +kernel)⟩
  have refused : (afterTwo 15 true).now.isBefore (afterTwo 30 false).now = true := by decide
  have taken : ¬(afterTwo 45 false).now.isBefore (afterTwo 15 true).now = true := by decide
  refine ⟨⟨ok_of_to_option (by decide +kernel), _, before, by decide +kernel, ?_⟩,
    ok_of_to_option (by decide +kernel), _, after, by decide +kernel, ?_⟩
  · rw [before.resolve, if_pos refused]
    exact ⟨_, rfl⟩
  · rw [after.resolve, if_neg taken]
    exact ⟨_, rfl⟩

end Reckon
