import Arranger.Proofs.Pattern.Writing

/-!
# Writing and reading patterns

A pattern that is read from a text is read again from its canonical text.

## Main results

* `Arranger.Pattern.ofText_text` — reading what is written gives the pattern back.
-/

namespace Arranger.Pattern

open Grammar

/-- **Reading what is written gives the pattern back**, with the same steps and so with the same
groups, for every pattern of a text that has no infinite literal, range or gain.

**Proof sketch.** The pattern is denoted by a parse tree whose lexemes come from the scanner, so its
numbers and names can be written. Written in canonical order, every step is spelled: the scanner
finds the lexemes of a parse tree that denotes the same step. -/
theorem ofText_text {text : String} {pattern : Pattern} (h : ofText text = .ok pattern)
    (hfinite : pattern.hasInfinity = false) : ofText pattern.text = .ok pattern := by
  obtain ⟨tokens, hscan, htokens⟩ := bind_eq_ok_iff.mp h
  have hscanned : Scanned tokens := scanFrom_scanned hscan
  obtain ⟨tree, hlexemes, hadmissible, rfl⟩ := ofTokens_sound hscanned htokens
  have hproper := hscanned.proper
  rw [← hlexemes] at hproper
  obtain ⟨hne, hsteps⟩ := tree.writable_pattern hproper hadmissible hfinite
  have hread := ofText_joinWith hne fun step hmem => spelled_write (hsteps step hmem)
  rw [List.map_id'] at hread
  exact hread

/-- A beat with its suffixes in another order, and two effects of which one has a number. -/
theorem ofText_text_reordered :
    ofText "i?rv2!>.5;3" = .ok ⟨[.mix .sum
        [⟨none, ⟨.position 0, some (.head (1 / 2)), [.reverse, .volume 2], true, true, none⟩⟩,
          ⟨none, ⟨.literal 3, none, [], false, false, none⟩⟩]]⟩ ∧
      ofText "i>0.5rv2!?;3" = ofText "i?rv2!>.5;3" := by
  have hread : ofText "i?rv2!>.5;3" = .ok ⟨[.mix .sum
      [⟨none, ⟨.position 0, some (.head (1 / 2)), [.reverse, .volume 2], true, true, none⟩⟩,
        ⟨none, ⟨.literal 3, none, [], false, false, none⟩⟩]]⟩ := by
    decide +kernel
  have hagain := ofText_text hread (by decide +kernel)
  rw [hread]
  refine ⟨rfl, ?_⟩
  convert hagain using 2
  decide +kernel

end Arranger.Pattern
