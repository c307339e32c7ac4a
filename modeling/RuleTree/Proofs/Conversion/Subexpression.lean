import RuleTree.Proofs.Conversion.Outcome
import RuleTree.Proofs.Conversion.Recursion
import RuleTree.Proofs.Grammar.Relocation
import RuleTree.Proofs.Tree.Regions

/-!
# Expressions inside a source

The text of an expression in the tree of a source is itself the source of this expression. Parsed by
itself it has the same tree, and the same is built of it or the same error reported. Only the places
are counted from its own beginning.

* `Region.within`, `Place.within`: regions and places of a text inside another.
* `Lexes.exists_within`: a text inside another lexes as it does by itself.
* `expr_reparses`: every expression in the tree of a source.
-/

namespace RuleTree

open Grammar Phrase Reading

/-! ### Places of a text inside another -/

/-- A line and a column of a text that begins at the place `m` of another, in the other. -/
def Place.within (m : Mark) (p : Place) : Place where
  line := p.line.map (· + (m.line - 1 : Nat))
  column := if p.line = some 1 then p.column.map (· + (m.column - 1 : Nat)) else p.column

/-- A region of a text that begins at the place `m` of another, in the other. -/
def Region.within (m : Mark) (r : Region) : Region where
  line := (Place.within m ⟨r.line, r.column⟩).line
  column := (Place.within m ⟨r.line, r.column⟩).column
  start := r.start.map (· + m.offset)
  stop := r.stop.map (· + m.offset)
  endLine := (Place.within m ⟨r.endLine, r.endColumn⟩).line
  endColumn := (Place.within m ⟨r.endLine, r.endColumn⟩).column

theorem movesPlaces_within (m : Mark) : MovesPlaces m.within (Place.within m) := by
  intro k
  by_cases hfirst : k.line = 1
  · simp [Place.within, Mark.within, hfirst]
  · have hline : ¬(k.line : Int) = 1 := by omega
    simp [Place.within, Mark.within, hfirst, hline]

theorem movesRegions_within (m : Mark) : MovesRegions m.within (Region.within m) := by
  intro s
  have hstart := movesPlaces_within m s.start
  have hstop := movesPlaces_within m s.stop
  simp only [Region.within, Region.ofSpan, hstart, hstop]
  simp [Span.map, Mark.within]

theorem Region.ofSpan_injective {s s' : Span} (h : Region.ofSpan s = Region.ofSpan s') : s = s' := by
  obtain ⟨⟨_, _, _⟩, _, _, _⟩ := s
  obtain ⟨⟨_, _, _⟩, _, _, _⟩ := s'
  simp only [Region.ofSpan, Region.mk.injEq, Option.some.injEq, Int.natCast_inj] at h
  simp [h]

/-- An error about a node at another place. -/
def Error.movePlace (P : Place → Place) : Error → Error
  | build e => build (e.movePlace P)
  | e => e

/-- A node at another place. -/
def Site.movePlace (P : Place → Place) (s : Site) : Site := { s with place := P s.place }

theorem Failure.atRoot_movePlace (P : Place → Place) (e : Failure) (kind : Kind)
    (root : Option Site) :
    (e.movePlace P).atRoot kind (root.map (.movePlace P)) = (e.atRoot kind root).movePlace P := by
  cases e with
  | fatal error => rfl
  | _ => rfl

theorem mapError_atRoot_movePlace {α β : Type} (P : Place → Place) (r : Except Failure α)
    (f : α → β) (kind : Kind) (root : Option Site) :
    ((r.mapError (Failure.movePlace P)).map f).mapError
        (fun e => Error.build (e.atRoot kind (root.map (.movePlace P)))) =
      ((r.mapError fun e => Error.build (e.atRoot kind root)).map f).mapError (.movePlace P) := by
  cases r with
  | ok a => rfl
  | error e => exact congrArg (fun e => Except.error (Error.build e)) (e.atRoot_movePlace P kind root)

/-- A text that stands inside another lexes there as it does by itself. -/
theorem Lexes.exists_within {v : Vocabulary} {m k : Mark} {cs : List Char} {ts : List Token}
    (h : Lexes v (m.within k) cs ts) (hk : k.Real) :
    ∃ us, Lexes v k cs us ∧ ts = us.map (Token.relocate m.within) := by
  generalize hm : m.within k = m' at h
  induction h generalizing k with
  | ending m' => exact ⟨[], .ending k, rfl⟩
  | @piece m' t text rest ts htakes _ ih =>
    subst hm
    obtain ⟨us, hus, rfl⟩ := ih (hk.after text) (m.within_after hk text)
    refine ⟨_, .piece htakes hus, ?_⟩
    cases t.lexeme? text with
    | none => rfl
    | some l =>
      rw [← m.within_after hk text]
      rfl

/-! ### Expressions in a tree -/

theorem Grammar.Shows.exists_expr {u : Tree} {us : List Token} (h : Shows u us)
    (hrule : u.rule? = some "expr") : ∃ e : Expr, e.tree = u ∧ e.tokens = us := by
  cases h with
  | token k text span => cases hrule
  | @node r hr d =>
    have hexpr : r = .expr := by
      have hname : r.name = "expr" := Option.some.inj hrule
      cases r with
      | op o => cases o <;> simp [Rule.name] at hname
      | integerIn r => cases r <;> simp [Rule.name] at hname
      | expr => rfl
      | _ => simp [Rule.name] at hname
    subst hexpr
    obtain ⟨e, he⟩ := Phrase.exists_expr (.rule .expr d)
    have htokens := e.tokens_derivation
    have htrees := e.trees_derivation
    rw [he, trees_rule hr] at htrees
    rw [he] at htokens
    exact ⟨e, (List.singleton_inj.mp htrees).symm, htokens.symm⟩

theorem Phrase.Expr.exists_relocate {g : Mark → Mark} {e : Expr} {us : List Token}
    (h : e.tokens = us.map (Token.relocate g)) :
    ∃ e' : Expr, e'.tokens = us ∧ e'.relocate g = e := by
  have hlexemes : us.map (·.lexeme) = e.tokens.map (·.lexeme) := by
    rw [h, List.map_map]
    rfl
  obtain ⟨e', htokens, -⟩ := e.exists_placed hlexemes
  have hmoved : (Sentence.expr (e'.relocate g)).tokens = (Sentence.expr e).tokens :=
    (e'.tokens_relocate.trans (congrArg _ htokens)).trans h.symm
  exact ⟨e', htokens, Sentence.expr.inj (sentence_unique rfl hmoved)⟩

theorem Fills.exists_lexes {source : String} {us : List Token} {m n : Nat}
    (h : Fills source us m n) :
    ∃ us', Lexes .standard .origin ((source.toList.take n).drop m) us' ∧
      us = us'.map (Token.relocate (Mark.ofOffset source.toList m).within) := by
  have hlexes := cuts_iff_lexes.mp (h.cuts.truncate List.nil_prefix)
  rw [← Mark.within_origin (Mark.real_ofOffset source.toList m)] at hlexes
  exact hlexes.exists_within Mark.real_origin

/-! ### Conversions of expressions -/

namespace Phrase

variable {source : String}

theorem Expr.tree_eq_over (e : Expr) : e.tree = .over e.span "expr" e.tree.children := by
  cases e <;> rfl

theorem Expr.span_eq_of_extent {e : Expr} {s : Span} (h : e.tree.extent? = some (.ofSpan s)) :
    e.span = s := by
  rw [e.tree_eq_over] at h
  exact Region.ofSpan_injective (Option.some.inj h)

theorem Expr.rootSite?_tree (e : Expr) :
    rootSite? source e.tree =
      some ⟨"expr", (Region.ofSpan e.span).cut (charsOf source), (Region.ofSpan e.span).place⟩ := by
  rw [e.tree_eq_over]
  rfl

theorem Expr.result_convert (settings : Settings) (e : Expr)
    (hlegible : ∀ tok ∈ e.tokens, tok.Legible (some (charsOf source))) :
    (convert settings (some source) .expression e.tree).result =
      ((e.build settings.radixFloats defaultAllowance).map Node.expression).mapError fun failure =>
        .build (failure.atRoot .expression (rootSite? source e.tree)) := by
  have hat := ofTree_at settings (some (charsOf source)) e.tree
  rw [e.branches_tree] at hat
  have hyields := e.yields_expression hlegible defaultAllowance _ _ hat
  rw [convert_eq, Option.map_some, if_pos (e.scannable_tree scanAllowance (charsOf source))]
  exact result_convertWith_of_yields (Builder.yields_map hyields Node.expression)

variable {e : Expr} {text : String} {m : Mark}

theorem Expr.cut_eq (text : String) (hstart : (e.relocate m.within).span.start.offset = m.offset)
    (hstop : (e.relocate m.within).span.stop.offset = m.offset + text.toList.length) :
    (Region.ofSpan e.span).cut (charsOf text) = text := by
  rw [e.span_relocate] at hstart hstop
  simp only [Span.map, Mark.within] at hstart hstop
  have hzero : e.span.start.offset = 0 := by omega
  have hlength : e.span.stop.offset = text.toList.length := by omega
  have hsize : (charsOf text).size = text.toList.length := rfl
  have hslice := slice_natCast (charsOf text) (m := 0) (n := text.toList.length) (Nat.zero_le _)
    (Nat.le_of_eq hsize.symm)
  show String.ofList (slice (charsOf text) (some e.span.start.offset) (some e.span.stop.offset)) = _
  rw [hzero, hlength, hslice, List.drop_zero, charsOf, List.take_length, String.ofList_toList]

theorem Expr.result_convert_relocate {settings : Settings} (hsettings : settings.Packaged)
    (files : String → Option Vocabulary) (hlexes : Lexes .standard .origin text.toList e.tokens)
    (hlegible : ∀ tok ∈ (e.relocate m.within).tokens, tok.Legible (some (charsOf source)))
    (houter : (Region.ofSpan (e.relocate m.within).span).cut (charsOf source) = text)
    (hinner : (Region.ofSpan e.span).cut (charsOf text) = text) :
    (convert settings (some source) .expression (e.relocate m.within).tree).result =
      ((parseExpression settings files text).result.map Node.expression).mapError
        (.movePlace (.within m)) := by
  have hroot : rootSite? source (e.relocate m.within).tree =
      (rootSite? text e.tree).map (.movePlace (.within m)) := by
    rw [Expr.rootSite?_tree, Expr.rootSite?_tree, houter, hinner, e.span_relocate]
    exact congrArg (fun place => some (Site.mk "expr" text place))
      (movesPlaces_within m e.span.start).symm
  rw [Expr.result_convert settings _ hlegible, result_parseExpression_of_lexes hsettings hlexes,
    hroot, e.build_relocate (movesPlaces_within m), mapError_atRoot_movePlace]

end Phrase

/-- **The text of an expression in a tree is a source of that expression.** By itself it is accepted,
its tree is the tree it has inside, and the same is built of it or the same error is reported, with
all places counted from the beginning of the expression. -/
theorem expr_reparses {settings : Settings} (hsettings : settings.Packaged)
    (files : String → Option Vocabulary) (start : Start) {source : String} {t : Tree}
    (h : parse settings files start.name source = .ok t) {u : Tree} (hu : u ∈ t.parts)
    (hrule : u.rule? = some "expr") :
    ∃ m n t', u.Covers source m n ∧
      (∃ entry ∈ t.flatten (some (charsOf source)),
        entry.site = ⟨"expr", u.text (some (charsOf source)), u.place⟩) ∧
      parse settings files Start.expr.name (u.text (some (charsOf source))) = .ok t' ∧
      u = t'.mapRegions (.within (.ofOffset source.toList m)) ∧
      (convert settings (some source) .expression u).result =
        ((parseExpression settings files (u.text (some (charsOf source)))).result.map
          Node.expression).mapError (.movePlace (.within (.ofOffset source.toList m))) := by
  obtain ⟨ts, hlexes, ⟨-, rfl⟩ | ⟨-, hparts⟩⟩ := showsPart_of_parse hsettings h
  · simp only [Tree.parts, Tree.partsOf, List.mem_singleton] at hu
    subst hu
    simp [Tree.rule?] at hrule
  have hentry := Tree.exists_entry (some (charsOf source)) hu hrule
  obtain ⟨us, hne, hus, hshows⟩ := hparts u hu
  obtain ⟨m, n, hstands⟩ := hshows.exists_stands hlexes hus hne
  obtain ⟨e, rfl, rfl⟩ := hshows.exists_expr hrule
  obtain ⟨us', hlexes', hmoved⟩ := hstands.fills.exists_lexes
  obtain ⟨e', rfl, rfl⟩ := Expr.exists_relocate hmoved
  have htext := hstands.covers.toList_text
  have hlength := hstands.covers.stop_eq
  -- By itself the expression stands in its own text, which no longer depends on where it stood.
  generalize hs : (e'.relocate (Mark.ofOffset source.toList m).within).tree.text
    (some (charsOf source)) = s at htext hlength hentry ⊢
  rw [← htext] at hlexes'
  have hspan := Expr.span_eq_of_extent hstands.covers.extent
  have hinner := Expr.cut_eq s (congrArg (·.start.offset) hspan)
    ((congrArg (·.stop.offset) hspan).trans hlength)
  have houter : (Region.ofSpan (e'.relocate (Mark.ofOffset source.toList m).within).span).cut
      (charsOf source) = s := by
    rw [← hs, Expr.tree_eq_over]
    rfl
  refine ⟨m, n, e'.tree, hstands.covers, hentry, ?_, e'.tree_relocate (movesRegions_within _), ?_⟩
  · exact (parse_eq_ok_iff_sentence hsettings).mpr ⟨.expr e', rfl, rfl, hlexes'⟩
  · exact Expr.result_convert_relocate hsettings files hlexes'
      (fun tok htok => hlexes.legible (hus.subset htok)) houter hinner

/-- The expression in this group has a bad literal, by itself and inside. -/
theorem expr_reparses_group :
    ({} : Settings).Packaged ∧ ∃ t u m t',
      parse {} (fun _ => none) Start.program.name "1;\n[2, (3 ** 'ab')];" = .ok t ∧
        u ∈ t.parts ∧ u.rule? = some "expr" ∧
        u.text (some (charsOf "1;\n[2, (3 ** 'ab')];")) = "3 ** 'ab'" ∧
        parse {} (fun _ => none) Start.expr.name "3 ** 'ab'" = .ok t' ∧
        u = t'.mapRegions (.within m) ∧
        (convert {} (some "1;\n[2, (3 ** 'ab')];") .expression u).result =
          ((parseExpression {} (fun _ => none) "3 ** 'ab'").result.map Node.expression).mapError
            (.movePlace (.within m)) := by
  have hsettings : ({} : Settings).Packaged := Or.inl rfl
  have hany : (parse {} (fun _ => none) Start.program.name "1;\n[2, (3 ** 'ab')];").toOption.any
      (fun t => t.parts.any fun u => u.rule? = some "expr" ∧
        u.text (some (charsOf "1;\n[2, (3 ** 'ab')];")) = "3 ** 'ab'") = true := by
    decide +kernel
  cases hparse : parse {} (fun _ => none) Start.program.name "1;\n[2, (3 ** 'ab')];" with
  | error e =>
    rw [hparse] at hany
    cases hany
  | ok t =>
    rw [hparse] at hany
    obtain ⟨u, hu, hboth⟩ := List.any_eq_true.mp hany
    obtain ⟨hrule, htext⟩ := of_decide_eq_true hboth
    obtain ⟨m, n, t', -, -, hparse', hregions, hresult⟩ :=
      expr_reparses hsettings (fun _ => none) .program hparse hu hrule
    rw [htext] at hparse' hresult
    exact ⟨hsettings, t, u, .ofOffset _ m, t', rfl, hu, hrule, htext, hparse', hregions, hresult⟩

end RuleTree
