import Mathlib.Data.List.Basic
import Mathlib.Order.Lattice
import Arranger.Audio.Recording

/-!
# Windows of recordings

A window has of every channel the samples from one frame up to another. Two windows where one ends
and the other begins are one window.

## Main results

* `Arranger.take_drop_append` — the same for one list.
* `Arranger.Recording.window_eq` — a window that does not go past the end.
* `Arranger.Recording.window_append` — **adjoining windows** are one, channel by channel.
-/

namespace Arranger

/-- Two stretches of a list where one ends and the other begins are one stretch. -/
lemma take_drop_append {α : Type} (xs : List α) {i j k : ℕ} (hij : i ≤ j) (hjk : j ≤ k) :
    (xs.drop i).take (j - i) ++ (xs.drop j).take (k - j) = (xs.drop i).take (k - i) := by
  have hdrop : xs.drop j = (xs.drop i).drop (j - i) := by
    rw [List.drop_drop]
    congr 1
    omega
  rw [hdrop, ← List.take_add]
  congr 1
  omega

namespace Recording

variable {recording : Recording} {start middle stop : ℕ}

/-- Frames within a recording are not cut off. -/
lemma window_eq (hle : start ≤ stop) (hstop : stop ≤ recording.frames) :
    recording.window start stop =
      ⟨recording.channels.map fun channel => (channel.drop start).take (stop - start)⟩ := by
  rw [window, min_eq_left hstop, min_eq_left hle]

/-- A window has the channels of the recording. -/
@[simp] lemma channelCount_window : (recording.window start stop).channelCount =
    recording.channelCount :=
  List.length_map _

/-- **Adjoining windows are one window**, channel by channel. -/
lemma window_append (hmiddle : start ≤ middle) (hstop : middle ≤ stop)
    (hend : stop ≤ recording.frames) :
    List.zipWith (· ++ ·) (recording.window start middle).channels
        (recording.window middle stop).channels =
      (recording.window start stop).channels := by
  rw [window_eq hmiddle (hstop.trans hend), window_eq hstop hend,
    window_eq (hmiddle.trans hstop) hend, List.zipWith_map, List.zipWith_self]
  exact List.map_congr_left fun channel _ => take_drop_append channel hmiddle hstop

end Recording

end Arranger
