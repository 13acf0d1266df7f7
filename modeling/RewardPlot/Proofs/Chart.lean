import RewardPlot.Chart
import RewardPlot.Proofs.Binary64.Order
import Mathlib.Data.List.Perm.Basic
/-!
# The bounds of a chart

The bounds of some values are the least and the greatest of them, so they do not depend on
the order in which the values come.  Neither do the axes, which follow from the bounds and
from the longest series.  A zero may have either sign.
-/

namespace RewardPlot

open Binary64 (le_self coincides_of_le)

namespace Bounds

/-- The same bounds in value. -/
structure Coincide (a b : Bounds) : Prop where
  low : a.low.coincides b.low
  high : a.high.coincides b.high

/-- Both ends are numbers. -/
structure Known (b : Bounds) : Prop where
  low : b.low ≠ .nan
  high : b.high ≠ .nan

/-- Bounds that reach from the least to the greatest end of some others. -/
structure Spans (b : Bounds) (bs : List Bounds) : Prop where
  low_mem : ∃ x ∈ bs, b.low = x.low
  high_mem : ∃ x ∈ bs, b.high = x.high
  low_le : ∀ x ∈ bs, b.low ≤ x.low
  le_high : ∀ x ∈ bs, x.high ≤ b.high

variable {a b x : Bounds} {seen bs bs' : List Bounds}

theorem Known.spans (hb : b.Known) : b.Spans [b] := by
  refine ⟨⟨b, by simp⟩, ⟨b, by simp⟩, ?_, ?_⟩
  · simpa using le_self hb.low
  · simpa using le_self hb.high

theorem Spans.known (h : b.Spans bs) (hbs : ∀ x ∈ bs, x.Known) : b.Known := by
  obtain ⟨x, hx, hlow⟩ := h.low_mem
  obtain ⟨y, hy, hhigh⟩ := h.high_mem
  exact ⟨hlow ▸ (hbs x hx).low, hhigh ▸ (hbs y hy).high⟩

theorem Spans.union (h : b.Spans seen) (hseen : ∀ y ∈ seen, y.Known) (hx : x.Known) :
    (b.union x).Spans (seen ++ [x]) := by
  have hb := h.known hseen
  obtain ⟨hlow, hlow_left, hlow_right⟩ := Binary64.min_cases hb.low hx.low
  obtain ⟨hhigh, hhigh_left, hhigh_right⟩ := Binary64.max_cases hb.high hx.high
  refine ⟨?_, ?_, ?_, ?_⟩
  · rcases hlow with hsame | hsame
    · obtain ⟨y, hy, hlow⟩ := h.low_mem
      exact ⟨y, by simp [hy], hsame.trans hlow⟩
    · exact ⟨x, by simp, hsame⟩
  · rcases hhigh with hsame | hsame
    · obtain ⟨y, hy, hhigh⟩ := h.high_mem
      exact ⟨y, by simp [hy], hsame.trans hhigh⟩
    · exact ⟨x, by simp, hsame⟩
  · rw [List.forall_mem_append, List.forall_mem_singleton]
    exact ⟨fun y hy => Binary64.le_trans hlow_left (h.low_le y hy), hlow_right⟩
  · rw [List.forall_mem_append, List.forall_mem_singleton]
    exact ⟨fun y hy => Binary64.le_trans (h.le_high y hy) hhigh_left, hhigh_right⟩

theorem Spans.foldl (h : b.Spans seen) (hseen : ∀ y ∈ seen, y.Known)
    (hbs : ∀ y ∈ bs, y.Known) : (bs.foldl Bounds.union b).Spans (seen ++ bs) := by
  induction bs generalizing b seen with
  | nil => simpa using h
  | cons x bs ih =>
      obtain ⟨hx, hbs⟩ := List.forall_mem_cons.mp hbs
      have hseen' : ∀ y ∈ seen ++ [x], y.Known :=
        List.forall_mem_append.mpr ⟨hseen, by simpa using hx⟩
      have hrest := ih (h.union hseen hx) hseen' hbs
      rwa [List.append_assoc] at hrest

/-- Bounds that are united one after the other. -/
theorem spans_foldl_union (hknown : ∀ y ∈ b :: bs, y.Known) :
    (bs.foldl Bounds.union b).Spans (b :: bs) := by
  obtain ⟨hb, hbs⟩ := List.forall_mem_cons.mp hknown
  exact hb.spans.foldl (by simpa using hb) hbs

theorem Spans.perm (h : b.Spans bs) (hperm : bs.Perm bs') : b.Spans bs' := by
  obtain ⟨x, hx, hlow⟩ := h.low_mem
  obtain ⟨y, hy, hhigh⟩ := h.high_mem
  refine ⟨⟨x, hperm.mem_iff.mp hx, hlow⟩, ⟨y, hperm.mem_iff.mp hy, hhigh⟩, ?_, ?_⟩
  · exact fun z hz => h.low_le z (hperm.mem_iff.mpr hz)
  · exact fun z hz => h.le_high z (hperm.mem_iff.mpr hz)

theorem Spans.coincide (ha : a.Spans bs) (hb : b.Spans bs) : a.Coincide b := by
  obtain ⟨x, hx, hxlow⟩ := ha.low_mem
  obtain ⟨y, hy, hylow⟩ := hb.low_mem
  obtain ⟨u, hu, huhigh⟩ := ha.high_mem
  obtain ⟨v, hv, hvhigh⟩ := hb.high_mem
  refine ⟨coincides_of_le ?_ ?_, coincides_of_le ?_ ?_⟩
  · rw [hylow]
    exact ha.low_le y hy
  · rw [hxlow]
    exact hb.low_le x hx
  · rw [huhigh]
    exact hb.le_high u hu
  · rw [hvhigh]
    exact ha.le_high v hv

end Bounds

namespace Trace

/-- The bounds of a single value. -/
def point (v : Binary64) : Bounds := ⟨v, v⟩

theorem known_of_mem_drawable {t : Trace} {b : Bounds} (hb : b ∈ t.drawable.map point) :
    b.Known := by
  obtain ⟨v, hv, rfl⟩ := List.mem_map.mp hb
  have hfinite : v.isFinite = true := (List.mem_filter.mp hv).2
  have hnan : v ≠ .nan := by
    rintro rfl
    cases hfinite
  exact ⟨hnan, hnan⟩

theorem bounds?_spans {t : Trace} {b : Bounds} (hb : t.bounds? = some b) :
    b.Spans (t.drawable.map point) := by
  unfold bounds? at hb
  split at hb
  · cases hb
  · next v vs hdrawable =>
    cases hb
    have hspans : ((vs.map point).foldl Bounds.union (point v)).Spans
        (point v :: vs.map point) := by
      apply Bounds.spans_foldl_union
      intro x hx
      rw [← List.map_cons, ← hdrawable] at hx
      exact known_of_mem_drawable hx
    rw [List.foldl_map] at hspans
    rw [hdrawable]
    exact hspans

theorem bounds?_known {t : Trace} {b : Bounds} (hb : t.bounds? = some b) : b.Known :=
  (bounds?_spans hb).known fun _ => known_of_mem_drawable

end Trace

namespace Chart

variable {c c' : Chart}

theorem bounds?_spans {b : Bounds} (hb : c.bounds? = some b) :
    b.Spans (c.series.filterMap (·.trace.bounds?)) := by
  have hknown : ∀ x ∈ c.series.filterMap (·.trace.bounds?), x.Known := by
    intro x hx
    obtain ⟨s, -, hs⟩ := List.mem_filterMap.mp hx
    exact Trace.bounds?_known hs
  unfold bounds? at hb
  split at hb
  · cases hb
  · next first rest hbounds =>
    cases hb
    rw [hbounds] at hknown ⊢
    exact Bounds.spans_foldl_union hknown

theorem bounds?_eq_none_iff : c.bounds? = none ↔ c.series.filterMap (·.trace.bounds?) = [] := by
  unfold bounds?
  split <;> simp_all

/-- Charts with the same series in any order have the same bounds in value. -/
theorem bounds?_perm (hseries : c.series.Perm c'.series) :
    Option.Rel Bounds.Coincide c.bounds? c'.bounds? := by
  have hperm := hseries.filterMap (·.trace.bounds?)
  have hnone : c.bounds? = none ↔ c'.bounds? = none := by
    rw [bounds?_eq_none_iff, bounds?_eq_none_iff]
    exact ⟨fun h => (h ▸ hperm).nil_eq.symm, fun h => (h ▸ hperm).eq_nil⟩
  cases hb : c.bounds? with
  | none =>
      rw [hnone.mp hb]
      exact .none
  | some b =>
      cases hb' : c'.bounds? with
      | none =>
          rw [hnone.mpr hb'] at hb
          cases hb
      | some b' => exact .some (((bounds?_spans hb).perm hperm).coincide (bounds?_spans hb'))

theorem maxLength_perm (hseries : c.series.Perm c'.series) : c.maxLength = c'.maxLength :=
  (hseries.map _).foldl_eq 0

end Chart

/-! ## Axes -/

namespace Axis

/-- The same axis in value. -/
structure Coincide (a b : Axis) : Prop where
  start : a.start.coincides b.start
  stop : a.stop.coincides b.stop

theorem room_congr {low low' high high' : Binary64} (hlow : low.place = low'.place)
    (hhigh : high.place = high'.place) : (room low high).place = (room low' high').place := by
  have habs {x x' : Binary64} (hx : x.place = x'.place) : x.abs.place = x'.abs.place := by
    rw [Binary64.place_abs, Binary64.place_abs, hx]
  unfold room
  rw [Binary64.coincides_congr hlow hhigh]
  split
  · exact Binary64.max_congr (Binary64.mul_congr (habs hlow) _) rfl
  · apply Binary64.max_congr
    · exact Binary64.sub_congr (Binary64.mul_congr hhigh _) (Binary64.mul_congr hlow _)
    · exact Binary64.mul_congr (Binary64.max_congr (habs hlow) (habs hhigh)) _

theorem isFinite_endLimit : endLimit.isFinite := by decide +kernel

theorem isFinite_neg_endLimit : (-endLimit).isFinite := Binary64.isFinite_neg isFinite_endLimit

theorem endLimit_ne_nan : endLimit ≠ .nan := Binary64.ne_nan_of_isFinite isFinite_endLimit

theorem neg_endLimit_ne_nan : -endLimit ≠ .nan := Binary64.ne_nan_of_isFinite isFinite_neg_endLimit

/-- The axis of some values depends on their bounds in value only. -/
theorem ofBounds_congr {b b' : Option Bounds} (h : Option.Rel Bounds.Coincide b b') :
    (ofBounds b).Coincide (ofBounds b') := by
  cases h with
  | none =>
      have hself (n : Nat) : (Binary64.ofNat n).coincides (Binary64.ofNat n) :=
        Binary64.coincides_of_place_eq (Binary64.ofNat_ne_nan n) rfl
      rw [ofBounds]
      constructor <;> dsimp only
      · exact hself 0
      · exact hself 1
  | @some b b' h =>
      have hlow := Binary64.clamp_congr (Binary64.place_eq_of_coincides h.low)
        (-endLimit) endLimit
      have hhigh := Binary64.clamp_congr (Binary64.place_eq_of_coincides h.high)
        (-endLimit) endLimit
      have hroom := room_congr hlow hhigh
      refine ⟨?_, ?_⟩
      · apply Binary64.coincides_of_place_eq (Binary64.max_ne_nan neg_endLimit_ne_nan)
        exact Binary64.max_congr (Binary64.sub_congr hlow hroom) rfl
      · apply Binary64.coincides_of_place_eq (Binary64.min_ne_nan endLimit_ne_nan)
        exact Binary64.min_congr (Binary64.add_congr hhigh hroom) rfl

end Axis

end RewardPlot
