import Reckon.Clock.Moment
import Reckon.Proofs.Sequencing

/-!
# Moments keep their zone

Every operation on a moment gives a moment of the same zone.
-/

set_option autoImplicit false

namespace Reckon.Moment

open Sequencing

def IsIn (z : Zone) (m : Moment) : Prop := m.zone = z

variable {z : Zone} {m : Moment}

theorem at_local_is_in (z : Zone) (t : LocalTime) (fold : Bool) : (atLocal z t fold).IsIn z := by
  unfold atLocal IsIn
  simp only
  split
  · rfl
  · rfl

theorem with_reading_is_in (inside : m.IsIn z) (t : LocalTime) : (m.withReading t).IsIn z :=
  inside ▸ at_local_is_in m.zone t m.fold

theorem of_instant_is_in (z : Zone) (instant : Int) : Yields (IsIn z) (ofInstant z instant) := by
  unfold ofInstant
  simp only
  split
  · exact yields_ok rfl
  · exact yields_error _ _

theorem in_zone_is_in (m : Moment) (z : Zone) : Yields (IsIn z) (m.inZone z) := by
  unfold inZone
  split
  · rename_i own
    exact yields_ok own
  · exact of_instant_is_in z _

theorem set_time_is_in (inside : m.IsIn z) (hour minute second microsecond : Int) :
    Yields (IsIn z) (m.setTime hour minute second microsecond) := by
  unfold setTime
  split
  · exact yields_ok (with_reading_is_in inside _)
  · exact yields_error _ _

theorem of_date?_is_in (z : Zone) (d : Date) :
    Yields (fun found : Option Moment => ∀ m ∈ found, m.IsIn z) (ofDate? z d) := by
  unfold ofDate?
  split
  · apply yields_ok
    intro m found
    split at found
    · cases found
      exact at_local_is_in z _ true
    · cases found
  · exact yields_error _ _

theorem add_elapsed_is_in (inside : m.IsIn z) (ticks : Int) :
    Yields (IsIn z) (m.addElapsed ticks) := by
  unfold addElapsed
  split
  · exact inside ▸ of_instant_is_in m.zone _
  · exact yields_error _ _

theorem add_days_is_in (inside : m.IsIn z) (days : Int) : Yields (IsIn z) (m.addDays days) := by
  unfold addDays
  simp only
  split
  · exact yields_ok (inside ▸ at_local_is_in m.zone _ true)
  · exact yields_error _ _

theorem add_months_is_in (inside : m.IsIn z) (years months : Int) :
    Yields (IsIn z) (m.addMonths years months) := by
  unfold addMonths
  simp only
  split
  · exact yields_ok (inside ▸ at_local_is_in m.zone _ true)
  · exact yields_error _ _

theorem add_is_in (inside : m.IsIn z) (grain : Grain) (n : Int) :
    Yields (IsIn z) (m.add grain n) := by
  unfold add
  split
  · exact add_elapsed_is_in inside 0
  · cases grain with
    | second | minute | hour => exact add_elapsed_is_in inside _
    | day | week => exact add_days_is_in inside _
    | month | year => exact add_months_is_in inside _ _

theorem start_of_day_is_in (inside : m.IsIn z) : m.startOfDay.IsIn z :=
  with_reading_is_in inside _

theorem start_of_is_in (inside : m.IsIn z) (grain : Grain) (weekStart : Int) :
    Yields (IsIn z) (m.startOf grain weekStart) := by
  cases grain with
  | week => exact add_is_in (start_of_day_is_in inside) .day _
  | second | minute | hour | day | month | year => exact yields_ok (with_reading_is_in inside _)

end Reckon.Moment
