import Mathlib.Data.Nat.Find
import SwitchLint.Proofs.ClauseVisits

/-!
# Switches without scope

A switch without a body in braces is skipped when its own word is checked. Its clauses are left alone as well, as long
as it does not stand in a scoped switch: every report on a clause, every visit and every search for the clause that
another one falls through to stays between the word and the closing brace of a scoped switch (`enclosed_of_visited`,
`enclosed_of_reported`, `enclosed_of_next`).

Inside a scoped switch they are not left alone. The search for clauses has no closing token to jump to, so it goes on
behind the word of the switch without scope, and the innermost scoped switch around them takes its clauses for its own
(`visited_of_enclosed`, `unscoped_clause_checked`).
-/

namespace SwitchLint

open SwitchLint.Tree SwitchLint.Text

namespace TokenStream

/-- Whether a position lies between the word and the closing token of a scoped switch. -/
def Enclosed (s : TokenStream) (k : Nat) : Prop :=
  ∃ i o c, s.SwitchAt i ∧ s.Scoped i o c ∧ i < k ∧ (k : Int) < c

/-- Whether no check of a switch visits the clause at `k` or reports anything on it, and the search for the clause that
a visited one falls through to never ends at it. -/
structure LeavesAlone (s : TokenStream) (k : Nat) : Prop where
  not_visited : ∀ i, s.SwitchAt i → k ∉ SwitchLayout.visited s i
  not_reported : ∀ i : Nat, s.SwitchAt i → ∀ v ∈ (SwitchLayout.inspect s i).violations, v.index ≠ k
  not_next : ∀ i, s.SwitchAt i → ∀ e ∈ SwitchLayout.visited s i, ∀ o c, s.Scoped e o c →
    SwitchLayout.nextClause s (o + 1) c ≠ .found k

variable {s : TokenStream}

/-- Among the switches that jump over a position there is a last one. -/
theorem exists_innermost {i k : Nat} {c : Int} (hj : s.Jumps i c) (hik : i < k) (hkc : (k : Int) < c) :
    ∃ i' c', s.Jumps i' c' ∧ i' < k ∧ (k : Int) < c' ∧ ∀ j d, s.Jumps j d → i' < j → j < k → d ≤ k := by
  classical
  let Over (i : Nat) : Prop := ∃ c, s.Jumps i c ∧ (k : Int) < c
  obtain ⟨c', hj', hkc'⟩ : Over (Nat.findGreatest Over (k - 1)) :=
    Nat.findGreatest_spec (show i ≤ k - 1 by omega) ⟨c, hj, hkc⟩
  have hle := Nat.findGreatest_le (P := Over) (k - 1)
  refine ⟨_, c', hj', by omega, hkc', ?_⟩
  intro j d hjd hlt hjk
  by_contra hdk
  exact Nat.findGreatest_is_greatest hlt (by omega) ⟨d, hjd, by omega⟩

end TokenStream

namespace Layout

variable {x : Layout} {w : Int} {text : List Char} {root : Node} (h : SwitchShaped text root)
  (he : x.Exact w text root) (hu : ∀ t ∈ x.tokens, t.IsUnmarked) {data : List UInt8} {marks : List Mark}
  (hmarks : (x.allSwitchMarks data (root.ofType .switchStatement)).result = .ok marks)

include h he hu hmarks

theorem jumps_iff_scoped {i : Nat} {c : Int} :
    (x.written marks).Jumps i c ↔ (x.written marks).SwitchAt i ∧ ∃ o, (x.written marks).Scoped i o c := by
  constructor
  · intro hj
    have ⟨t, ht, hk, _⟩ := hj
    obtain ⟨S, k, hS, rfl, rfl⟩ := (jumps_iff h he hu hmarks).1 hj
    obtain ⟨t', ht', ho, hc', -⟩ := hS.token h he hmarks (.inl rfl)
    exact ⟨⟨t, ht, hk⟩, k.opener, t', ht', ho, hc'⟩
  · rintro ⟨⟨t, ht, hk⟩, o, t', ht', -, hc⟩
    obtain rfl : t = t' := Option.some.inj (ht.symm.trans ht')
    exact ⟨t, ht, hk, hc⟩

theorem not_clauseAt_of_jumps {i k : Nat} (hj : (x.written marks).Jumps i k) : ¬(x.written marks).ClauseAt k := by
  rintro ⟨t, ht, hk⟩
  obtain ⟨S, l, hS, rfl, hkl⟩ := (jumps_iff h he hu hmarks).1 hj
  obtain rfl : k = l.closer := Int.ofNat_inj.1 hkl
  rw [hS.closer.kind_writeAll ht, S.closer_type] at hk
  cases hk

/-- The scope of a clause lies in that of a scoped switch. -/
theorem exists_jump_over_scope {e : Nat} (hclause : (x.written marks).ClauseAt e) {t : Token}
    (ht : (x.written marks).tokens[e]? = some t) {c : Int} (hc : t.closer = some c) :
    ∃ i d o, (x.written marks).Jumps i d ∧ t.opener = some o ∧ i < e ∧ (e : Int) < o ∧ o < c ∧ c ≤ d := by
  obtain ⟨t', ht', hk⟩ := hclause
  obtain rfl : t = t' := Option.some.inj (ht.symm.trans ht')
  obtain ⟨t₀, ht₀, hk₀, -⟩ := Mark.writeAll_getElem?_eq_some ht
  obtain ⟨clause, y, hv, hct, hy, hye⟩ := keyword_of_kind h he ht₀ (hk₀ ▸ hk)
  obtain ⟨S, k, j, o, c', hS, hcl, ho, hc'⟩ := clause_of_token h he hmarks ht hu (by rw [hc]; rfl)
    (Node.mem_preorder_of_mem_visible hv) hct hy hye.kept.present hye.byte
  obtain rfl : c = c' := Option.some.inj (hc.symm.trans hc')
  have h1 := hcl.keyword_order h he hS
  have h2 := hcl.closer_order h he hS
  have h3 := S.order h.wellNested.nested
  have h4 := hS.word.lt_iff he hS.opener
  exact ⟨k.word, k.closer, o, (jumps_iff h he hu hmarks).2 ⟨S, k, hS, rfl, rfl⟩, ho, by omega, by omega, by omega,
    by omega⟩

theorem enclosed_of_jumps {i k : Nat} {c : Int} (hj : (x.written marks).Jumps i c) (hik : i < k)
    (hkc : (k : Int) < c) : (x.written marks).Enclosed k := by
  obtain ⟨hi, o, hsc⟩ := (jumps_iff_scoped h he hu hmarks).1 hj
  exact ⟨i, o, c, hi, hsc, hik, hkc⟩

theorem enclosed_of_visited {i k : Nat} (hi : (x.written marks).SwitchAt i)
    (hk : k ∈ SwitchLayout.visited (x.written marks) i) : (x.written marks).Enclosed k := by
  obtain ⟨t, o, c, ht, ho, hc, hk⟩ := SwitchLayout.mem_visited_cases hk
  obtain ⟨h1, h2, -⟩ := (SwitchLayout.clausePositions_ends (jumpsForward h he hu hmarks _ _)).2 k hk
  exact ⟨i, o, c, hi, ⟨t, ht, ho, hc⟩, by omega, h2⟩

theorem enclosed_of_next {e k : Nat} {o c : Int} (hclause : (x.written marks).ClauseAt e)
    (hsc : (x.written marks).Scoped e o c) (hnext : SwitchLayout.nextClause (x.written marks) (o + 1) c = .found k) :
    (x.written marks).Enclosed k := by
  obtain ⟨t, ht, ho, hc⟩ := hsc
  obtain ⟨i, d, o', hj, ho', h1, h2, h3, h4⟩ := exists_jump_over_scope h he hu hmarks hclause ht hc
  obtain rfl : o = o' := Option.some.inj (ho.symm.trans ho')
  obtain ⟨h5, h6, -⟩ := SwitchLayout.nextClause_found (jumpsForward h he hu hmarks _ _) hnext
  exact enclosed_of_jumps h he hu hmarks hj (by omega) (by omega)

theorem enclosed_of_reported (hclosed : (x.written marks).Closed) {i k : Nat} (hi : (x.written marks).SwitchAt i)
    (hk : (x.written marks).ClauseAt k) {v : Violation}
    (hv : v ∈ (SwitchLayout.inspect (x.written marks) i).violations) (hvk : v.index = k) :
    (x.written marks).Enclosed k := by
  have ⟨t, ht, _⟩ := hi
  rw [SwitchLayout.violations_eq hclosed (jumpsForward h he hu hmarks) ht] at hv
  obtain ⟨e, hvisit, hv⟩ := List.mem_flatMap.1 hv
  rw [SwitchLayout.visitReports_eq ht] at hv
  obtain ⟨f, hf, rfl⟩ := List.mem_map.1 hv
  rcases SwitchLayout.mem_clauseFindings hf with hindex | ⟨clause, c, hclause, hc, hindex, -⟩
  · obtain rfl : e = k := Int.ofNat_inj.1 (hindex.symm.trans hvk)
    exact enclosed_of_visited h he hu hmarks hi hvisit
  · -- the report is on the closing token of the clause, which is no closing brace
    obtain rfl : c = k := hindex.symm.trans hvk
    obtain ⟨i', d, o, hj, -, h1, h2, h3, h4⟩ := exists_jump_over_scope h he hu hmarks
      (SwitchLayout.clauseAt_of_mem_visited hvisit) hclause hc
    have hne : d ≠ k := by
      rintro rfl
      exact not_clauseAt_of_jumps h he hu hmarks hj hk
    exact enclosed_of_jumps h he hu hmarks hj (by omega) (by omega)

/-- A clause in a scoped switch is visited, by the innermost one. -/
theorem visited_of_enclosed {k : Nat} (hk : (x.written marks).ClauseAt k) (hencl : (x.written marks).Enclosed k) :
    ∃ i, (x.written marks).SwitchAt i ∧ k ∈ SwitchLayout.visited (x.written marks) i := by
  obtain ⟨i₀, o₀, c₀, hi₀, hsc₀, h1, h2⟩ := hencl
  obtain ⟨i, c, hj, hik, hkc, hlast⟩ :=
    TokenStream.exists_innermost ((jumps_iff_scoped h he hu hmarks).2 ⟨hi₀, o₀, hsc₀⟩) h1 h2
  obtain ⟨hi, o, t, ht, ho, hc⟩ := (jumps_iff_scoped h he hu hmarks).1 hj
  refine ⟨i, hi, ?_⟩
  rw [SwitchLayout.visited_of_scoped ht ho hc]
  refine SwitchLayout.mem_clausePositions_of_jumps (jumpsForward h he hu hmarks _ _) hk (by omega) hkc ?_
  intro j d hjd hij hjk
  have hdk := hlast j d hjd (by omega) hjk
  have hne : d ≠ k := by
    rintro rfl
    exact not_clauseAt_of_jumps h he hu hmarks hjd hk
  omega

theorem closer_eq_none_of_switchMarks {n word : Node} (hn : n ∈ root.preorder) (htype : n.type = .switchStatement)
    (hnone : (x.switchMarks data n).result = .ok []) (hword : n.childOfType .switchWord = some word) {i : Nat}
    {t : Token} (ht : (x.written marks).tokens[i]? = some t) (hk : t.kind = .switch)
    (hi : (x.written marks).StartsWith i word) : t.closer = none := by
  by_contra hsome
  obtain ⟨S, k, hS, rfl, -⟩ := switch_of_token h he hmarks ht hu hk (Option.isSome_iff_ne_none.2 hsome)
  obtain ⟨hwm, hwb⟩ := hi
  rw [startByte_written] at hwb
  obtain ⟨hwc, hwt⟩ := Node.childOfType_eq_some hword
  have hwword := ((h.switches n hn htype).word word hwc hwt).1
  obtain ⟨-, rfl⟩ := hS.word.eq_of_byte h.wellNested.nested hn hwc hwword.1 (hwword.text_of_present hwm) hwb
  have hmarks' := Except.ok.inj (hnone.symm.trans hS.resolves.switchMarks)
  exact absurd hmarks' (by simp [SwitchTokens.marks])

end Layout

/-! ### Clauses of switches without scope -/

/-- In a parsed stream whose tree is switch-shaped, the check of a switch statement that got no scope reports nothing.
A clause, of a switch with or without scope, is left alone by all checks iff it does not lie in a scoped switch. -/
theorem unscoped_left_alone_iff (grammar : Grammar) (w : Int) (source : String) (p : Parsed) (x : Layout)
    (hs : SwitchShaped (Source.normalize source).toList (grammar (Source.normalize source)))
    (hp : (Source.parse grammar w source).result = .ok p)
    (hx : Source.layout w (Utf8.encode (Source.normalize source).toList) (grammar (Source.normalize source)) = .ok x) :
    (∀ n ∈ (grammar (Source.normalize source)).preorder, n.type = .switchStatement →
      (x.switchMarks (Utf8.encode (Source.normalize source).toList) n).result = .ok [] →
      ∀ (word : Node) (i : Nat) (t : Token), n.childOfType .switchWord = some word → p.stream.tokens[i]? = some t →
        t.kind = .switch → p.stream.StartsWith i word →
        SwitchLayout.inspect p.stream i = ⟨[], [.unscopedSwitch t.line], none⟩) ∧
    ∀ k, p.stream.ClauseAt k → (p.stream.LeavesAlone k ↔ ¬p.stream.Enclosed k) := by
  have hclosed := closed_of_parse hp
  obtain ⟨marks, he, hu, hmarks, hstream⟩ := exists_marks_of_parse hs.wellNested hp hx
  rw [hstream] at hclosed ⊢
  refine ⟨?_, fun k hk => ⟨?_, ?_⟩⟩
  · intro n hn htype hnone word i t hword ht hk hi
    have hcloser := Layout.closer_eq_none_of_switchMarks hs he hu hmarks hn htype hnone hword ht hk hi
    have hverdict : SwitchLayout.verdict (x.written marks) i = ⟨[], [.unscopedSwitch t.line], none⟩ := by
      unfold SwitchLayout.verdict
      rw [TokenStream.get?_natCast, ht]
      dsimp only
      rw [hcloser]
      cases t.opener <;> rfl
    unfold SwitchLayout.inspect
    rw [hverdict]
    rfl
  · intro halone hencl
    obtain ⟨i, hi, hmem⟩ := Layout.visited_of_enclosed hs he hu hmarks hk hencl
    exact halone.not_visited i hi hmem
  · intro hnot
    refine ⟨?_, ?_, ?_⟩
    · intro i hi hmem
      exact hnot (Layout.enclosed_of_visited hs he hu hmarks hi hmem)
    · intro i hi v hv hvk
      exact hnot (Layout.enclosed_of_reported hs he hu hmarks hclosed hi hk hv hvk)
    · intro i hi e hmem o c hsc hnext
      exact hnot (Layout.enclosed_of_next hs he hu hmarks (SwitchLayout.clauseAt_of_mem_visited hmem) hsc hnext)

/-- A switch without braces in a clause of a scoped one. -/
def unbracedSource : String :=
  "switch\x7bcase 1:switch:case 5:endswitch;break;\x7d"

def unbracedSwitch : Node :=
  .mk .switchStatement 14 38 true false false [
    .mk .switchWord 14 20 false false false [],
    .mk .switchBlock 20 38 true false true [
      .mk .colon 20 21 false false false [],
      .mk .caseStatement 21 28 true false false [
        .mk .caseWord 21 25 false false false [],
        .mk (.other "integer") 26 27 true false false [],
        .mk .colon 27 28 false false false []],
      .mk (.other "endswitch") 28 37 false false false [],
      .mk .semicolon 37 38 false false false []]]

def unbracedTree : Node :=
  .mk (.other "program") 0 45 true false false [
    .mk .switchStatement 0 45 true false false [
      .mk .switchWord 0 6 false false false [],
      .mk .switchBlock 6 45 true false true [
        .mk .openBrace 6 7 false false false [],
        .mk .caseStatement 7 44 true false false [
          .mk .caseWord 7 11 false false false [],
          .mk (.other "integer") 12 13 true false false [],
          .mk .colon 13 14 false false false [],
          unbracedSwitch,
          .mk (.other "break_statement") 38 44 true false false [
            .mk (.other "break") 38 43 false false false [],
            .mk .semicolon 43 44 false false false []]],
        .mk .closeBrace 44 45 false false false []]]]

theorem unscoped_left_alone_iff_unbraced :
    ∃ p, (Source.parse (fun _ => unbracedTree) 4 unbracedSource).result = .ok p ∧
      SwitchLayout.inspect p.stream 6 = ⟨[], [.unscopedSwitch 1], none⟩ ∧ p.stream.Enclosed 8 ∧
      ¬p.stream.LeavesAlone 8 := by
  obtain ⟨p, x, hp, hx, hmarks, hclause, hencl, ⟨t, ht, hk, hl⟩, hstart⟩ :
      ∃ p x, (Source.parse (fun _ => unbracedTree) 4 unbracedSource).result = .ok p ∧
        Source.layout 4 (Utf8.encode (Source.normalize unbracedSource).toList) unbracedTree = .ok x ∧
        (x.switchMarks (Utf8.encode (Source.normalize unbracedSource).toList) unbracedSwitch).result = .ok [] ∧
        p.stream.ClauseAt 8 ∧ p.stream.Enclosed 8 ∧
        (∃ t, p.stream.tokens[6]? = some t ∧ t.kind = .switch ∧ t.line = 1) ∧ startByte p.stream.tokens 6 = 14 := by
    refine ⟨_, _, rfl, rfl, rfl, ⟨_, rfl, rfl⟩, ⟨0, 1, 16, ⟨_, rfl, rfl⟩, ⟨_, rfl, rfl, rfl⟩, ?_, ?_⟩,
      ⟨_, rfl, rfl, rfl⟩, ?_⟩ <;> decide
  obtain ⟨hskip, halone⟩ := unscoped_left_alone_iff (fun _ => unbracedTree) 4 unbracedSource p x (by decide) hp hx
  refine ⟨p, hp, ?_, hencl, fun h => (halone 8 hclause).1 h hencl⟩
  rw [← hl]
  exact hskip unbracedSwitch (by decide) rfl hmarks _ 6 t rfl ht hk ⟨rfl, hstart⟩

/-- The clause of the inner switch of `unbracedTree` is visited and reported by the check of the outer one, and the
clause of the outer one is taken to fall through to it. -/
theorem unscoped_clause_checked : SwitchShaped (Source.normalize unbracedSource).toList unbracedTree ∧
    unbracedSwitch ∈ unbracedTree.visible ∧
    ∃ p x, (Source.parse (fun _ => unbracedTree) 4 unbracedSource).result = .ok p ∧
      Source.layout 4 (Utf8.encode (Source.normalize unbracedSource).toList) unbracedTree = .ok x ∧
      (x.switchMarks (Utf8.encode (Source.normalize unbracedSource).toList) unbracedSwitch).result = .ok [] ∧
      SwitchLayout.visited p.stream 0 = [2, 8] ∧ p.stream.StartsWith 8 (.mk .caseWord 21 25 false false false []) ∧
      (∃ v ∈ (SwitchLayout.inspect p.stream 0).violations, v.index = 8 ∧ v.code = "caseIndent") ∧
      p.stream.Scoped 2 5 14 ∧ SwitchLayout.nextClause p.stream 6 14 = .found 8 ∧
      ∃ v ∈ (SwitchLayout.inspect p.stream 0).violations, v.index = 2 ∧ v.code = "TerminatingComment" := by
  refine ⟨by decide, by decide, _, _, rfl, rfl, rfl, ?_, ⟨rfl, ?_⟩, ?_, ⟨_, rfl, rfl, rfl⟩, ?_, ?_⟩ <;> decide

end SwitchLint
