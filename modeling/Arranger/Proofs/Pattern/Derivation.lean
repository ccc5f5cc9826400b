import Arranger.Pattern.Compiling
import Arranger.Proofs.Pattern.Steps

/-!
# Patterns and the grammar

A text is a pattern just if the grammar derives its tokens under the conditions that go with the
rules, and then it is the pattern that the one derivation denotes.

## Main results

* `Arranger.Pattern.ofText_iff_derivation` — which texts are patterns, and which patterns they are.
-/

namespace Arranger

open Grammar

namespace Pattern

/-- **The patterns are what the grammar derives.** A list of tokens has at most one derivation. It
is accepted if there is one that meets the conditions on effects, fractions, slices, groups,
offsets and ranges, and the pattern is what this derivation denotes.

**Proof sketch.** The tokens are divided into bars and runs, and in front of each separator there
is one way to divide them. The reader of a run, of a bar and of the whole each accept what a rule
of the grammar derives. -/
theorem ofText_iff_derivation {text : String} {tokens : List Token}
    (h : scan text = .ok tokens) :
    (∀ tree tree' : Tree, tree.lexemes = tokens.map Token.lexeme →
        tree'.lexemes = tokens.map Token.lexeme → tree = tree') ∧
      ∀ pattern, ofText text = .ok pattern ↔
        ∃ tree : Tree, tree.lexemes = tokens.map Token.lexeme ∧ tree.Admissible ∧
          tree.pattern = pattern := by
  have hscanned : Scanned tokens := scanFrom_scanned h
  have htext : ∀ pattern, ofText text = .ok pattern ↔ ofTokens tokens = .ok pattern := by
    intro pattern
    rw [ofText, h]
    rfl
  refine ⟨fun tree tree' htree htree' => Tree.lexemes_injective (htree.trans htree'.symm), ?_⟩
  intro pattern
  rw [htext]
  constructor
  · exact ofTokens_sound hscanned
  · rintro ⟨tree, hlexemes, hadmissible, rfl⟩
    exact ofTokens_complete hscanned hlexemes hadmissible

/-- The position with an effect in one word, and a mix of a sliced beat with a silent one. -/
theorem ofText_glued_and_mixed :
    ofText "ir,2>.5;3!" = .ok ⟨[.single ⟨none, { ref := .position 0, effects := [.reverse] }⟩,
      .mix .sum [⟨none, { ref := .literal 2, slice := some (.head (1 / 2)) }⟩,
        ⟨none, { ref := .literal 3, silent := true }⟩]]⟩ := by
  have hscan : scan "ir,2>.5;3!" = .ok [⟨.word "ir", 0⟩, ⟨.comma, 2⟩, ⟨.number 2, 3⟩,
      ⟨.greater, 4⟩, ⟨.number (1 / 2), 5⟩, ⟨.semicolon, 7⟩, ⟨.number 3, 8⟩, ⟨.bang, 9⟩,
      ⟨.stop, 10⟩] := by
    decide +kernel
  refine ((ofText_iff_derivation hscan).2 _).mpr ⟨⟨.single ⟨none, .glued ⟨'r', [], none⟩, []⟩,
    [.mixed .sum ⟨none, .number 2, [.head (1 / 2)]⟩ ⟨none, .number 3, [.silent]⟩ []]⟩, rfl, ?_, rfl⟩
  have hglued : Phrase.Admissible ⟨none, .glued ⟨'r', [], none⟩, []⟩ :=
    ⟨fun _ hmem => ⟨.reverse, by rw [List.mem_singleton.mp hmem]; rfl⟩, by simp, by decide, by decide⟩
  have hsliced : Phrase.Admissible ⟨none, .number 2, [.head (1 / 2)]⟩ := by
    refine ⟨trivial, ?_, by decide, by decide⟩
    intro suffix hmem
    rw [List.mem_singleton.mp hmem]
    exact (by decide +kernel : (0 : Double) < 1 / 2 ∧ (1 / 2 : Double) ≤ 1)
  have hsilent : Phrase.Admissible ⟨none, .number 3, [.silent]⟩ := by
    refine ⟨trivial, ?_, by decide, by decide⟩
    intro suffix hmem
    rw [List.mem_singleton.mp hmem]
    trivial
  rw [Tree.Admissible, List.forall_mem_cons, List.forall_mem_singleton]
  refine ⟨hglued, ?_⟩
  rw [Group.Admissible, List.forall_mem_cons, List.forall_mem_singleton]
  exact ⟨⟨hsliced, rfl⟩, hsilent, rfl⟩

end Pattern

end Arranger
