import Mathlib.Order.CompletePartialOrder
import Mathlib.Order.Interval.Set.Disjoint

/-! Calendars: bookings of resources for half-open times, by key. -/

namespace Collections

structure Booking (R T : Type) where
  resources : Set R
  start : T
  finish : T

variable {K R T : Type} [LinearOrder T]

namespace Booking

def span (booking : Booking R T) : Set T := Set.Ico booking.start booking.finish

def Shares (booking other : Booking R T) : Prop := (booking.resources ∩ other.resources).Nonempty

/-- They share a resource, and each begins before the other one ends. -/
structure Conflicts (booking other : Booking R T) : Prop where
  shares : booking.Shares other
  before : booking.start < other.finish
  after : other.start < booking.finish

omit [LinearOrder T] in
theorem Shares.symm {booking other : Booking R T} (shares : booking.Shares other) : other.Shares booking := by
  rw [Shares, Set.inter_comm]
  exact shares

/-- Times of bookings that are not empty are disjoint unless each begins before the other
one ends; this covers times that touch, lie within each other or are equal. -/
theorem disjoint_span_iff {booking other : Booking R T} (proper : booking.start < booking.finish)
    (proper' : other.start < other.finish) :
    Disjoint booking.span other.span ↔ ¬ (booking.start < other.finish ∧ other.start < booking.finish) := by
  rw [span, span, Set.Ico_disjoint_Ico, min_le_iff, le_max_iff, le_max_iff, not_and_or, not_lt, not_lt]
  constructor
  · rintro ((early | early) | (late | late))
    · exact absurd proper early.not_gt
    · exact .inr early
    · exact .inl late
    · exact absurd proper' late.not_gt
  · rintro (late | early)
    · exact .inr (.inl late)
    · exact .inl (.inr early)

end Booking

/-- Every booking has a time, and bookings that share a resource have disjoint ones. -/
structure Calendar (bookings : K → Option (Booking R T)) : Prop where
  proper : ∀ key booking, bookings key = some booking → booking.start < booking.finish
  apart : ∀ key other booking booking', key ≠ other → bookings key = some booking → bookings other = some booking' →
    booking.Shares booking' → Disjoint booking.span booking'.span

namespace Calendar

variable {bookings bookings' : K → Option (Booking R T)}

theorem empty : Calendar fun _ : K => (none : Option (Booking R T)) :=
  ⟨fun _ _ found => (nomatch found), fun _ _ _ _ _ found => (nomatch found)⟩

theorem restrict (valid : Calendar bookings)
    (fewer : ∀ key booking, bookings' key = some booking → bookings key = some booking) : Calendar bookings' where
  proper key booking found := valid.proper key booking (fewer key booking found)
  apart key other booking booking' different found found' :=
    valid.apart key other booking booking' different (fewer key booking found) (fewer other booking' found')

/-- A booking that conflicts with none of the others can be added. -/
theorem book (valid : Calendar bookings) {key : K} {booking : Booking R T} (proper : booking.start < booking.finish)
    (free : ∀ other booking', bookings other = some booking' → ¬ booking.Conflicts booking')
    (added : bookings' key = some booking) (others : ∀ other, other ≠ key → bookings' other = bookings other) :
    Calendar bookings' := by
  have disjoint (other : K) (booking' : Booking R T) (found : bookings other = some booking')
      (shares : booking.Shares booking') : Disjoint booking.span booking'.span := by
    rw [Booking.disjoint_span_iff proper (valid.proper other booking' found)]
    exact fun meets => free other booking' found ⟨shares, meets.1, meets.2⟩
  refine ⟨fun other booking' found => ?_, fun first second booking' booking'' different found found' shares => ?_⟩
  · by_cases same : other = key
    · rw [same, added] at found
      cases found
      exact proper
    · rw [others other same] at found
      exact valid.proper other booking' found
  · by_cases same : first = key
    · rw [same, added] at found
      cases found
      rw [others second fun second => different (same.trans second.symm)] at found'
      exact disjoint second booking'' found' shares
    · rw [others first same] at found
      by_cases same' : second = key
      · rw [same', added] at found'
        cases found'
        exact (disjoint first booking' found shares.symm).symm
      · rw [others second same'] at found'
        exact valid.apart first second booking' booking'' different found found' shares

end Calendar

end Collections
