import Arranger.Plan.Resolving
import Arranger.Proofs.Beatmap.Window
import Arranger.Proofs.Number.Remainder

/-!
# Wrapping whole beat numbers

A whole beat number is wrapped into a map as integers are: nothing on the way is rounded, as long as
the numbers are not too large. So a whole number, negative or not, always stands for a whole beat.

## Main definitions

* `Arranger.wholeBeat` — the whole beat that a whole number stands for.

## Main results

* `Arranger.wholeBeat_spec` — it is one of the beats.
* `Arranger.Beatmap.containsBeat_of_value_eq` — which integers are beats.
* `Arranger.Beatmap.wrapBeat_of_value_eq` — whole numbers are wrapped as integers are.
-/

namespace Arranger

/-- The whole beat that a whole number stands for on a map of `count` beats: the number itself if it
is a beat, else the number modulo `size` if that is a beat, else the number modulo `count`. The
numbers go from one on. -/
def wholeBeat (count size : ℕ) (number : ℤ) : ℤ :=
  if 1 ≤ number ∧ number ≤ count then number
  else if 0 < size ∧ (number - 1) % size + 1 ≤ count then (number - 1) % size + 1
  else (number - 1) % count + 1

/-- **The whole beat is one of the beats.** -/
lemma wholeBeat_spec {count : ℕ} (hcount : 0 < count) (size : ℕ) (number : ℤ) :
    1 ≤ wholeBeat count size number ∧ wholeBeat count size number ≤ count := by
  rw [wholeBeat]
  split_ifs with hinside hlevel
  · exact hinside
  · have hlow := Int.emod_nonneg (number - 1) (by omega : (size : ℤ) ≠ 0)
    omega
  · have hlow := Int.emod_nonneg (number - 1) (by omega : (count : ℤ) ≠ 0)
    have hhigh := Int.emod_lt_of_pos (number - 1) (by omega : (0 : ℤ) < count)
    omega

section Whole

variable {beat : Double} {number : ℤ} (hbeat : beat.isFinite = true)
  (hvalue : beat.value = number)

include hbeat hvalue

/-- **The integers from one up to the number of beats are beats**, and no others are. -/
lemma Beatmap.containsBeat_of_value_eq {map : Beatmap}
    (hcount : map.beatCount < 2 ^ Format.double.precision) :
    map.containsBeat beat = true ↔ 1 ≤ number ∧ number ≤ map.beatCount := by
  obtain ⟨hone, honeValue, -⟩ := Binary.one_spec Format.double
  rcases lt_or_ge number 1 with hlow | hlow
  · have hbelow : ¬ (1 : Double) ≤ beat := by
      rw [Binary.le_iff hone hbeat, honeValue, hvalue, not_le]
      exact_mod_cast hlow
    rw [containsBeat_eq_true_iff]
    exact iff_of_false (fun h => hbelow h.2.1) (by omega)
  · have heq := Binary.eq_ofInt_of_value_eq hbeat (by omega) hvalue
    obtain ⟨m, rfl⟩ := Int.eq_ofNat_of_zero_le (by omega : 0 ≤ number)
    rw [heq, Binary.ofInt_natCast, containsBeat_ofNat hcount]
    omega

variable (hshort : (number - 1).natAbs ≤ 2 ^ Format.double.precision)

include hshort

/-- An integer is reduced as integers are. -/
lemma wrapInto_of_value_eq {n : ℕ} (hpos : 0 < n) (hn : n ≤ 2 ^ Format.double.precision) :
    (wrapInto n beat).isFinite = true ∧ (wrapInto n beat).value = ((number - 1) % n + 1 : ℤ) := by
  obtain ⟨hone, honeValue, -⟩ := Binary.one_spec Format.double
  obtain ⟨hsub, hsubValue⟩ := Binary.sub_one_spec hbeat
  have hless : (beat - 1).value = (number - 1 : ℤ) := by
    have hexact := Format.nearest_intCast hshort
    rw [hsubValue, hvalue, ← hexact]
    push_cast
    rfl
  obtain ⟨hfinite, -⟩ := Binary.euclidean_spec hsub hpos hn
  have hremainder := Binary.value_euclidean_of_value_eq hsub hpos hn hless
  have hlow := Int.emod_nonneg (number - 1) (by omega : (n : ℤ) ≠ 0)
  have hhigh := Int.emod_lt_of_pos (number - 1) (by omega : (0 : ℤ) < n)
  have hsum : (((number - 1) % n : ℤ) : ℚ) + 1 = ((number - 1) % n + 1 : ℤ) := by
    push_cast
    rfl
  rw [wrapInto, Binary.add_eq hfinite hone, hremainder, honeValue, hsum]
  obtain ⟨hround, hroundValue, -⟩ := Binary.roundSigned_intCast Format.double
    (((beat - 1).euclidean (Binary.ofNat n)).isNegative && (1 : Double).isNegative)
    (show ((number - 1) % n + 1).natAbs ≤ 2 ^ Format.double.precision by omega)
  exact ⟨hround, hroundValue⟩

/-- **Whole numbers are wrapped as integers are.**

**Proof sketch.** Both ways of reducing give an integer that is at least one, and so which of the
three numbers is a beat can be told from the integers. -/
theorem Beatmap.wrapBeat_of_value_eq {map : Beatmap} (hpos : 0 < map.beatCount)
    (hcount : map.beatCount < 2 ^ Format.double.precision) {size : ℕ}
    (hsize : size ≤ 2 ^ Format.double.precision) :
    map.wrapBeat size beat = .ok (Binary.ofInt (wholeBeat map.beatCount size number)) := by
  have hinside := map.containsBeat_of_value_eq hbeat hvalue hcount
  have hlost : (!beat.isFinite || map.beatCount = 0) = false := by simp [hbeat, hpos.ne']
  have hreduced : ∀ {n : ℕ}, 0 < n → n ≤ 2 ^ Format.double.precision →
      (map.containsBeat (wrapInto n beat) = true ↔ (number - 1) % n + 1 ≤ map.beatCount) ∧
        wrapInto n beat = Binary.ofInt ((number - 1) % n + 1) := by
    intro n hn hle
    obtain ⟨hfinite, hreducedValue⟩ := wrapInto_of_value_eq hbeat hvalue hshort hn hle
    have hlow := Int.emod_nonneg (number - 1) (by omega : (n : ℤ) ≠ 0)
    refine ⟨?_, Binary.eq_ofInt_of_value_eq hfinite (by omega) hreducedValue⟩
    rw [containsBeat_of_value_eq hfinite hreducedValue hcount]
    omega
  obtain ⟨hwhole, hwholeValue⟩ := hreduced hpos hcount.le
  have hhigh := Int.emod_lt_of_pos (number - 1) (by omega : (0 : ℤ) < map.beatCount)
  rw [wrapBeat, wholeBeat]
  by_cases hin : 1 ≤ number ∧ number ≤ map.beatCount
  · rw [if_pos (hinside.mpr hin), if_pos hin,
      Binary.eq_ofInt_of_value_eq hbeat (by omega) hvalue]
  · rw [if_neg (mt hinside.mp hin), if_neg hin, hlost, if_neg Bool.false_ne_true]
    by_cases hlevel : 0 < size ∧ (number - 1) % size + 1 ≤ map.beatCount
    · obtain ⟨hfits, hfitsValue⟩ := hreduced hlevel.1 hsize
      have htaken : (decide (0 < size) && map.containsBeat (wrapInto size beat)) = true := by
        rw [Bool.and_eq_true, decide_eq_true_iff, hfits]
        exact hlevel
      rw [if_pos htaken, if_pos hlevel, hfitsValue]
    · have hleft : ¬ (decide (0 < size) && map.containsBeat (wrapInto size beat)) = true := by
        rw [Bool.and_eq_true, decide_eq_true_iff]
        rintro ⟨hsizePos, hfits⟩
        exact hlevel ⟨hsizePos, (hreduced hsizePos hsize).1.mp hfits⟩
      rw [if_neg hleft, if_neg hlevel, if_pos (hwhole.mpr (by omega)), hwholeValue]

end Whole

end Arranger
