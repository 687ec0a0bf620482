import ForestQuery.Proofs.Encoding
import ForestQuery.Proofs.KeySource
/-!
Which failures an expression can ask for. Main statement: what a level adds to a column fails as an overflow or not
at all, in every dialect and for every row.
-/

namespace ForestQuery

/-- Whether a failure is an overflow. -/
def RaiseKind.IsOverflow (kind : RaiseKind) : Prop := ∃ width, kind = .overflow width

namespace Expr

variable {p : RaiseKind → Prop} {d : Dialect} {env : Reference → Value} {e : Expr}

/-- Whether all failures that an expression asks for have a property. -/
def RaisesOnly (p : RaiseKind → Prop) : Expr → Prop
  | reference _ | literal _ => True
  | successor e | mirrored e | offset e | charLength e | hex e | complement e | lowerUuid e | textValue e => e.RaisesOnly p
  | padInteger e _ | padText e _ _ => e.RaisesOnly p
  | concat a b => a.RaisesOnly p ∧ b.RaisesOnly p
  | raise kind arg => p kind ∧ arg.RaisesOnly p
  | choose subject _ yes no => subject.RaisesOnly p ∧ yes.RaisesOnly p ∧ no.RaisesOnly p
  | bySign subject null negative other =>
    subject.RaisesOnly p ∧ null.RaisesOnly p ∧ negative.RaisesOnly p ∧ other.RaisesOnly p

theorem fails_eval (only : e.RaisesOnly p) : Outcome.Fails (fun raised => p raised.kind) (e.eval d env) := by
  -- Operands are evaluated first, so an expression fails as one of them does, or as it asks for itself.
  induction e with
  | reference | literal => exact Outcome.fails_ok
  | successor e ih | mirrored e ih | offset e ih | charLength e ih | hex e ih | complement e ih | lowerUuid e ih
  | padInteger e width ih | padText e width fill ih =>
    exact Outcome.fails_bind (ih only) fun _ => Outcome.fails_ok
  | textValue e ih =>
    cases d with
    | postgres => exact Outcome.fails_bind (ih only) fun _ => Outcome.fails_ok
    | sqlite | mysql => exact ih only
  | concat a b first second =>
    refine Outcome.fails_bind (first only.1) fun x => Outcome.fails_bind (second only.2) fun y => ?_
    split <;> exact Outcome.fails_ok
  | raise kind arg ih => exact Outcome.fails_bind (ih only.2) fun _ => Outcome.fails_error only.1
  | choose subject test yes no ofSubject ofYes ofNo =>
    refine Outcome.fails_bind (ofSubject only.1) fun x => ?_
    split
    · exact ofYes only.2.1
    · exact ofNo only.2.2
  | bySign subject null negative other ofSubject ofNull ofNegative ofOther =>
    refine Outcome.fails_bind (ofSubject only.1) fun x => ?_
    split
    · exact ofNull only.2.1
    · split
      · exact ofNegative only.2.2.1
      · exact ofOther only.2.2.2

theorem raisesOnly_guarded {subject arg value : Expr} {test : Test} {kind : RaiseKind} (ofSubject : subject.RaisesOnly p)
    (ofKind : p kind) (ofArg : arg.RaisesOnly p) (ofValue : value.RaisesOnly p) :
    (guarded d subject test kind arg value).RaisesOnly p := by
  unfold guarded
  split
  · exact ⟨ofSubject, ⟨ofKind, ofArg⟩, ofValue⟩
  · exact ofValue

/-- The expression of a segment asks for overflows only, besides what the expression of its value asks for. -/
theorem raisesOnly_segment? {kind : SegmentKind} {expr : Expr} (only : e.RaisesOnly RaiseKind.IsOverflow)
    (made : segment? d e kind = some expr) : expr.RaisesOnly RaiseKind.IsOverflow := by
  cases kind with
  | integer =>
    cases made
    exact ⟨only, trivial, ⟨trivial, only⟩, only⟩
  | uuid =>
    cases made
    exact ⟨only, trivial, raisesOnly_guarded only ⟨_, rfl⟩ only only⟩
  | text width =>
    cases made
    exact ⟨only, trivial, raisesOnly_guarded only ⟨_, rfl⟩ only ⟨⟨only, trivial, only⟩, only⟩⟩
  | textKey bytes descending =>
    have key : (guarded d (charLength (hex e)) (.exceeds (bytes * 2)) (.overflow (bytes * 2)) (hex e)
        (padText (hex e) (bytes * 2) '0')).RaisesOnly RaiseKind.IsOverflow :=
      raisesOnly_guarded only ⟨_, rfl⟩ only only
    simp only [segment?, textKeySegment?] at made
    split at made
    · cases made
      exact ⟨⟨only, trivial, trivial⟩, key⟩
    · split at made
      · cases made
        exact ⟨⟨only, trivial, trivial⟩, key⟩
      · cases made

theorem fails_evalText (only : e.RaisesOnly p) : Outcome.Fails (fun raised => p raised.kind) (e.evalText d env) :=
  Outcome.fails_bind (fails_eval only) fun _ => Outcome.fails_ok

end Expr

/-- What a level adds fails as an overflow only, besides the ways in which its values fail. -/
theorem Encoding.fails_evalText {enc : Encoding} {parts : List Part} {el : Element} {d : Dialect}
    {env : Reference → Value} (made : enc.element parts = .ok el)
    (only : ∀ p ∈ parts, p.expr.RaisesOnly RaiseKind.IsOverflow) :
    Outcome.Fails (fun raised => raised.kind.IsOverflow) (el.evalText d env) := by
  unfold element at made
  split at made
  · split at made
    · cases made
    · cases made
      exact Expr.fails_evalText (only _ List.mem_cons_self)
    · cases made
  · obtain ⟨exprs, segmentsOk, rfl⟩ := Outcome.map_eq_ok_iff.mp made
    refine Outcome.fails_map (Outcome.fails_mapM fun expr member => ?_)
    obtain ⟨p, inParts, segment⟩ := Outcome.exists_of_mem_right (segments_eq_ok_iff.mp segmentsOk) member
    exact Expr.fails_evalText (Expr.raisesOnly_segment? (only p inParts) segment)

theorem SortField.raisesOnly_levelExpr {p : RaiseKind → Prop} (f : SortField) (source : String) :
    (f.levelExpr source).RaisesOnly p := by
  rcases f.levelExpr_cases source with plain | ⟨-, mirrored⟩
  · rw [plain]
    exact trivial
  · rw [mirrored]
    exact trivial

/-- A key is made of columns, which do not fail. -/
theorem Compiler.raisesOnly_keySource {c : Compiler} {order : SiblingOrder} {ranked : Bool} {key : KeySource}
    {p : RaiseKind → Prop} (made : c.keySource order ranked = .ok key) : ∀ part ∈ key.parts, part.expr.RaisesOnly p :=
  forall_parts_of_keySource made trivial trivial fun f _ _ => f.raisesOnly_levelExpr Statement.source

end ForestQuery
