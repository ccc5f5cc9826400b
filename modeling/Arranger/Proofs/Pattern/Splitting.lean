import Arranger.Proofs.Pattern.Commas
import Arranger.Proofs.Pattern.Groups

/-!
# Texts split at commas

A comma is no part of a name, a word, a number or an alias, so it is a token wherever a text is read
as a pattern, and it stands between two steps. What is in front of it and what is behind it are
patterns of their own.

## Main results

* `Arranger.exists_scan_of_append_comma` — a text with a comma is scanned on both sides of it.
* `Arranger.Grammar.exists_split` — steps with a comma among them are steps on both sides of it.
* `Arranger.Pattern.ofText_append_comma_iff` — which texts with a comma are patterns, and which
  patterns they are.
-/

namespace Arranger

/-! ## Tokens -/

/-- **A token does not go on beyond a comma.** -/
lemma spelling_of_append_comma {position : ℕ} {first : Char} {cs rest after : List Char}
    {lexeme : Lexeme}
    (h : scanToken position first (cs ++ ',' :: rest) = .ok (lexeme, after)) :
    ∃ more after', cs = more ++ after' ∧ after = after' ++ ',' :: rest ∧
      lexeme.Spelling (first :: more) ∧
        ∀ c ∈ after'.head?, lexeme.goesOn (first :: more) c = false := by
  obtain ⟨more, hmore, hspelling, hafter⟩ := spelling_of_scanToken h
  obtain ⟨after', hcs, hrest⟩ : ∃ after', cs = more ++ after' ∧ after = after' ++ ',' :: rest := by
    rcases List.append_eq_append_iff.mp hmore with ⟨part, hpart, hrest⟩ | ⟨part, hpart, hrest⟩
    · cases part with
      | nil => exact ⟨[], by simpa using hpart.symm, hrest.symm⟩
      | cons c part =>
        -- the comma would be one of the characters of the token
        obtain ⟨rfl, -⟩ := List.cons.inj hrest
        exact absurd (by simp [hpart]) hspelling.comma_not_mem
    · exact ⟨part, hpart, hrest⟩
  refine ⟨more, after', hcs, hrest, hspelling, fun c hc => hafter c ?_⟩
  rw [hrest]
  cases after' with
  | nil => cases hc
  | cons next after' => exact hc

/-- **A text with a comma is scanned on both sides of it.**

**Proof sketch.** By induction on the layout. The first token ends in front of the comma, or it is
the comma itself. -/
lemma exists_scan_of_append_comma {position : ℕ} {cs rest : List Char} {tokens : List Token}
    (h : scanFrom position (cs ++ ',' :: rest) = .ok tokens) :
    (∃ lexemes, Scans cs lexemes) ∧ ∃ lexemes, Scans rest lexemes := by
  rw [scanFrom_eq_ok_iff] at h
  generalize htext : cs ++ ',' :: rest = text at h
  induction h generalizing cs with
  | stop position => simp at htext
  | @blank _ c _ _ hblank _ ih =>
    cases cs with
    | nil =>
      obtain ⟨rfl, -⟩ := List.cons.inj htext
      exact absurd hblank (by decide)
    | cons first cs =>
      obtain ⟨rfl, hmore⟩ := List.cons.inj htext
      obtain ⟨⟨lexemes, hfront⟩, hrest⟩ := ih hmore
      exact ⟨⟨lexemes, scans_blank hblank hfront⟩, hrest⟩
  | @token _ _ _ _ lexeme _ hblank htoken hlaid ih =>
    cases cs with
    | nil =>
      obtain ⟨rfl, hmore⟩ := List.cons.inj htext
      rw [← hmore] at htoken
      cases htoken
      exact ⟨⟨_, scans_nil⟩, _, scans_of_scanFrom (scanFrom_eq_ok_iff.mpr hlaid)⟩
    | cons first cs =>
      obtain ⟨rfl, hmore⟩ := List.cons.inj htext
      rw [← hmore] at htoken
      obtain ⟨more, after, rfl, hafter, hspelling, hstop⟩ := spelling_of_append_comma htoken
      obtain ⟨⟨lexemes, hfront⟩, hrest⟩ := ih hafter.symm
      exact ⟨⟨lexeme :: lexemes, scans_of_spelling hspelling hstop hfront⟩, hrest⟩

/-! ## Steps -/

namespace Grammar

/-- A comma behind the lexemes of a step does not come before them. -/
lemma exists_append_of_comma {group : Group} {rest front back : List Lexeme}
    (h : group.lexemes ++ rest = front ++ .comma :: back) :
    ∃ later, front = group.lexemes ++ later ∧ rest = later ++ .comma :: back := by
  rcases List.append_eq_append_iff.mp h with ⟨later, hfront, hrest⟩ | ⟨part, hgroup, hrest⟩
  · exact ⟨later, hfront, hrest⟩
  · cases part with
    | nil => exact ⟨[], by simpa using hgroup.symm, hrest.symm⟩
    | cons lexeme part =>
      obtain ⟨rfl, -⟩ := List.cons.inj hrest
      have hcomma := group.endsGroup_lexemes .comma (by rw [hgroup]; simp)
      cases hcomma

/-- **Steps with a comma among them are steps on both sides of it.**

**Proof sketch.** By induction on the steps behind the first. No lexeme of a step is a comma, so the
first step ends in front of it, and the comma is that of the next step or of a later one. -/
lemma exists_split {first : Group} {more : List Group} {front back : List Lexeme}
    (h : first.lexemes ++ Tree.restLexemes more = front ++ .comma :: back) :
    ∃ more' second others, more = more' ++ second :: others ∧
      first.lexemes ++ Tree.restLexemes more' = front ++ [.stop] ∧
      second.lexemes ++ Tree.restLexemes others = back := by
  induction more generalizing first front with
  | nil =>
    obtain ⟨later, -, hrest⟩ := exists_append_of_comma h
    rcases List.append_eq_singleton_iff.mp hrest.symm with ⟨-, hstop⟩ | ⟨-, hnil⟩
    · cases hstop
    · cases hnil
  | cons second more ih =>
    obtain ⟨later, rfl, hrest⟩ := exists_append_of_comma h
    rw [Tree.restLexemes_cons] at hrest
    cases later with
    | nil =>
      obtain ⟨-, hback⟩ := List.cons.inj hrest
      exact ⟨[], second, more, rfl, by rw [List.append_nil]; rfl, hback⟩
    | cons lexeme later =>
      obtain ⟨rfl, hlater⟩ := List.cons.inj hrest
      obtain ⟨more', third, others, rfl, hmore, hthird⟩ := ih hlater
      refine ⟨second :: more', third, others, rfl, ?_, hthird⟩
      rw [Tree.restLexemes_cons, hmore, List.append_assoc, List.cons_append]

end Grammar

/-! ## Patterns -/

namespace Pattern

open Grammar

/-- A text with a comma is a pattern only if both sides of the comma are. -/
lemma exists_ofText_of_append_comma {text other : String} {whole : Pattern}
    (h : ofText (text ++ "," ++ other) = .ok whole) :
    ∃ first second, ofText text = .ok first ∧ ofText other = .ok second := by
  obtain ⟨joined, hscan, hjoined⟩ := bind_eq_ok_iff.mp h
  obtain ⟨tree, htree, hadmissible, -⟩ := ofTokens_sound (scanFrom_scanned hscan) hjoined
  have hchars : scanFrom 0 (text.toList ++ ',' :: other.toList) = .ok joined := by
    rw [← hscan, scan, String.toList_append, String.toList_append, List.append_assoc]
    rfl
  obtain ⟨⟨lexemes, hfront⟩, ⟨lexemes', hback⟩⟩ := exists_scan_of_append_comma hchars
  obtain ⟨tokens, htokens, -⟩ := hfront 0
  obtain ⟨tokens', htokens', rfl⟩ := hback 0
  obtain ⟨front, hmap, hscans⟩ := scans_append htokens (by rintro c ⟨⟩; rfl)
    (scans_char (c := ',') rfl hback)
  obtain ⟨tokens'', htokens'', hlexemes⟩ := hscans 0
  cases hchars.symm.trans htokens''
  obtain ⟨more, second, others, hmore, hfirst, hsecond⟩ := exists_split (htree.trans hlexemes)
  rw [Tree.Admissible, hmore, ← List.cons_append, List.forall_mem_append] at hadmissible
  have hlexemes : Tree.lexemes ⟨tree.first, more⟩ = tokens.map Token.lexeme :=
    hfirst.trans hmap.symm
  have hlexemes' : Tree.lexemes ⟨second, others⟩ = tokens'.map Token.lexeme := hsecond
  have hread := ofTokens_complete (scanFrom_scanned htokens) hlexemes hadmissible.1
  have hread' := ofTokens_complete (scanFrom_scanned htokens') hlexemes' hadmissible.2
  exact ⟨_, _, bind_eq_ok_iff.mpr ⟨tokens, htokens, hread⟩,
    bind_eq_ok_iff.mpr ⟨tokens', htokens', hread'⟩⟩

/-- **Texts are split at commas.** A text with a comma is a pattern just if the texts on both sides
of it are, also where these end or begin inside a bracket, a number, a word or blanks. Then its
steps are those of the first and then those of the second. Their table of shuffle groups has the
slots of the second, moved behind the steps of the first, in the groups of the first with the same
names, and then the groups of the second with new names, in their order.

**Proof sketch.** No token goes on beyond a comma, and no step has one among its tokens. So the
tokens on both sides are those of the two texts, and the parse tree falls into two. The table of
groups is made of the steps alone. -/
theorem ofText_append_comma_iff (text other : String) :
    (∀ whole, ofText (text ++ "," ++ other) = .ok whole ↔
      ∃ first second, ofText text = .ok first ∧ ofText other = .ok second ∧
        whole = ⟨first.steps ++ second.steps⟩) ∧
      ∀ first second : Pattern, groups ⟨first.steps ++ second.steps⟩ =
        joinTables first.groups
          (second.groups.map (ShuffleGroup.mapSlots (· + first.steps.length))) := by
  refine ⟨fun whole => ⟨fun h => ?_, ?_⟩, groups_append⟩
  · obtain ⟨first, second, hfirst, hsecond⟩ := exists_ofText_of_append_comma h
    rw [ofText_append_comma hfirst hsecond] at h
    exact ⟨first, second, hfirst, hsecond, (Except.ok.inj h).symm⟩
  · rintro ⟨first, second, hfirst, hsecond, rfl⟩
    exact ofText_append_comma hfirst hsecond

end Pattern

end Arranger
