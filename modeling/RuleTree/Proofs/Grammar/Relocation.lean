import RuleTree.Proofs.Builder.Meaning

/-!
# Phrases at other places

A phrase may be moved to other places of a source, or to another source, as a whole. Its tree and
its meaning move along: nothing but the places changes.

* `Phrase.Expr.relocate` and its like move the tokens of a phrase.
* `tree_relocate`: the tree of a phrase that is moved has other regions and is otherwise the same.
* `build_relocate`: what is built of it is the same, and an error is about the moved place.
* `exists_placed`: a phrase can be put on any tokens that say the same.
-/

namespace RuleTree

/-- The span between the places that its ends are moved to. -/
def Span.map (g : Mark → Mark) (s : Span) : Span := ⟨g s.start, g s.stop⟩

/-- The token at another place. -/
def Token.relocate (g : Mark → Mark) (t : Token) : Token := ⟨t.lexeme, t.span.map g⟩

namespace Tree

mutual

/-- The tree with other regions. -/
def mapRegions (G : Region → Region) : Tree → Tree
  | token leaf => token { leaf with region := G leaf.region }
  | node rule region? children => node rule (region?.map G) (mapRegionsOf G children)

def mapRegionsOf (G : Region → Region) : List Tree → List Tree
  | [] => []
  | t :: ts => t.mapRegions G :: mapRegionsOf G ts

end

/-- The tree without its places. -/
def unplaced (t : Tree) : Tree := t.mapRegions fun _ => {}

mutual

theorem mapRegions_mapRegions (G H : Region → Region) (t : Tree) :
    (t.mapRegions G).mapRegions H = t.mapRegions (H ∘ G) := by
  match t with
  | token leaf => rfl
  | node rule region? children =>
    rw [mapRegions, mapRegions, mapRegions, mapRegionsOf_mapRegionsOf, Option.map_map]

theorem mapRegionsOf_mapRegionsOf (G H : Region → Region) (ts : List Tree) :
    mapRegionsOf H (mapRegionsOf G ts) = mapRegionsOf (H ∘ G) ts := by
  match ts with
  | [] => rfl
  | t :: ts =>
    rw [mapRegionsOf, mapRegionsOf, mapRegionsOf, mapRegions_mapRegions, mapRegionsOf_mapRegionsOf]

end

theorem unplaced_eq_of_mapRegions {G : Region → Region} {t u : Tree}
    (h : t.mapRegions G = u.mapRegions G) : t.unplaced = u.unplaced := by
  have hunplaced := congrArg Tree.unplaced h
  rwa [unplaced, unplaced, mapRegions_mapRegions, mapRegions_mapRegions] at hunplaced

end Tree

/-- `G` moves the region of a span as `g` moves its ends. -/
def MovesRegions (g : Mark → Mark) (G : Region → Region) : Prop :=
  ∀ s : Span, Region.ofSpan (s.map g) = G (.ofSpan s)

/-- `P` moves a place as `g` does. -/
def MovesPlaces (g : Mark → Mark) (P : Place → Place) : Prop :=
  ∀ m : Mark, P ⟨some m.line, some m.column⟩ = ⟨some (g m).line, some (g m).column⟩

/-- A failure about a node at another place. -/
def Failure.movePlace (P : Place → Place) : Failure → Failure
  | fatal ⟨site, cause⟩ => fatal ⟨site.map fun s => { s with place := P s.place }, cause⟩
  | failure => failure

theorem mapError_map {ε ε' α β : Type} (h : ε → ε') (f : α → β) (r : Except ε α) :
    (r.map f).mapError h = (r.mapError h).map f := by
  cases r <;> rfl

theorem mapError_bind {ε ε' α β : Type} (h : ε → ε') (r : Except ε α) (f : α → Except ε β) :
    (r >>= f).mapError h = r.mapError h >>= fun a => (f a).mapError h := by
  cases r <;> rfl

theorem mapError_ite {ε ε' α : Type} (h : ε → ε') {c : Prop} [Decidable c] {r : Except ε α}
    {r' : Except ε' α} {e : ε} {e' : ε'} (hr : c → r' = r.mapError h) (he : e' = h e) :
    (if c then r' else .error e') = (if c then r else .error e).mapError h := by
  by_cases hc : c
  · rw [if_pos hc, if_pos hc, hr hc]
  · rw [if_neg hc, if_neg hc, he]
    rfl

namespace Phrase

mutual

/-- The expression with its tokens at other places. -/
def Expr.relocate (g : Mark → Mark) : Expr → Expr
  | .single t => .single (t.relocate g)
  | .binary l o m r => .binary (l.relocate g) o (m.map g) (r.relocate g)

def Term.relocate (g : Mark → Mark) : Term → Term
  | .literal k text p => .literal k text (p.map g)
  | .enclosed b p is q => .enclosed b (p.map g) (is.relocate g) (q.map g)

def Items.relocate (g : Mark → Mark) : Items → Items
  | .nil => .nil
  | .last e => .last (e.relocate g)
  | .cons e m is => .cons (e.relocate g) (m.map g) (is.relocate g)

end

def Stmt.relocate (g : Mark → Mark) (s : Stmt) : Stmt := ⟨s.expr.relocate g, s.semicolon.map g⟩

def Sentence.relocate (g : Mark → Mark) : Sentence → Sentence
  | .program stmts => .program (stmts.map (Stmt.relocate g))
  | .expr e => .expr (e.relocate g)

variable {g : Mark → Mark}

/-! ### Tokens and spans -/

mutual

theorem Expr.tokens_relocate (e : Expr) :
    (e.relocate g).tokens = e.tokens.map (Token.relocate g) := by
  match e with
  | .single t => exact t.tokens_relocate
  | .binary l o m r =>
    rw [Expr.relocate, Expr.tokens, l.tokens_relocate, r.tokens_relocate, Expr.tokens,
      List.map_append, List.map_cons]
    rfl

theorem Term.tokens_relocate (t : Term) :
    (t.relocate g).tokens = t.tokens.map (Token.relocate g) := by
  match t with
  | .literal k text p => rfl
  | .enclosed b p is q =>
    rw [Term.relocate, Term.tokens, is.tokens_relocate, Term.tokens, List.map_cons, List.map_append]
    rfl

theorem Items.tokens_relocate (is : Items) :
    (is.relocate g).tokens = is.tokens.map (Token.relocate g) := by
  match is with
  | .nil => rfl
  | .last e => exact e.tokens_relocate
  | .cons e m is =>
    rw [Items.relocate, Items.tokens, e.tokens_relocate, is.tokens_relocate, Items.tokens,
      List.map_append, List.map_cons]
    rfl

end

theorem Term.span_relocate (t : Term) : (t.relocate g).span = t.span.map g := by
  cases t <;> rfl

theorem Expr.span_relocate (e : Expr) : (e.relocate g).span = e.span.map g := by
  cases e with
  | single t => exact t.span_relocate
  | binary l o m r =>
    rw [Expr.relocate, Expr.span, l.span_relocate, r.span_relocate]
    rfl

theorem Stmt.span_relocate (s : Stmt) : (s.relocate g).span = s.span.map g := by
  rw [Stmt.span, Stmt.relocate, s.expr.span_relocate]
  rfl

/-! ### Trees -/

section Trees

variable {G : Region → Region} (hG : MovesRegions g G)
include hG

theorem over_map (span : Span) (rule : String) (children : List Tree) :
    Tree.over (span.map g) rule (Tree.mapRegionsOf G children) =
      (Tree.over span rule children).mapRegions G := by
  rw [Tree.over, hG]
  rfl

theorem chain_map (span : Span) (rules : List String) (child : Tree) :
    Tree.chain (span.map g) rules (child.mapRegions G) =
      (Tree.chain span rules child).mapRegions G := by
  induction rules with
  | nil => rfl
  | cons rule rules ih =>
    have hover := over_map hG span rule [Tree.chain span rules child]
    rw [Tree.mapRegionsOf, Tree.mapRegionsOf, ← ih] at hover
    exact hover

theorem enclosedTree_map (span : Span) (below : List Tree) (b : Bracket) (is : Items) :
    enclosedTree (span.map g) (Tree.mapRegionsOf G below) b (is.relocate g) =
      (enclosedTree span below b is).mapRegions G := by
  have hsequence (rule : String) :
      Tree.chain (span.map g) ["term", "value"]
          (.over (span.map g) rule (Tree.mapRegionsOf G below)) =
        (Tree.chain span ["term", "value"] (.over span rule below)).mapRegions G := by
    rw [over_map hG, chain_map hG]
  cases b with
  | square => exact hsequence "array"
  | round =>
    cases is with
    | nil => exact hsequence "tuple"
    | last e => exact over_map hG span "term" below
    | cons e m is => exact hsequence "tuple"

omit hG

mutual

theorem Expr.tree_relocate (hG : MovesRegions g G) (e : Expr) :
    (e.relocate g).tree = e.tree.mapRegions G := by
  match e with
  | .single t =>
    rw [Expr.relocate, Expr.tree, t.tree_relocate hG, t.span_relocate]
    exact over_map hG t.span "expr" [t.tree]
  | .binary l o m r =>
    have hoperator : Tree.over (m.map g) "operator" [.over (m.map g) o.rule []] =
        (Tree.over m "operator" [.over m o.rule []]).mapRegions G :=
      chain_map hG m ["operator"] (.over m o.rule []) ▸
        congrArg (Tree.chain (m.map g) ["operator"]) (over_map hG m o.rule [])
    rw [Expr.relocate, Expr.tree, l.tree_relocate hG, r.tree_relocate hG, l.span_relocate,
      r.span_relocate, hoperator]
    exact over_map hG (l.span.through r.span) "expr"
      [l.tree, .over m "operator" [.over m o.rule []], r.tree]

theorem Term.tree_relocate (hG : MovesRegions g G) (t : Term) :
    (t.relocate g).tree = t.tree.mapRegions G := by
  match t with
  | .literal k text p =>
    rw [Term.relocate, Term.tree, hG]
    exact chain_map hG p ("term" :: k.rules) (.token ⟨k.name, text, .ofSpan p⟩)
  | .enclosed b p is q =>
    rw [Term.relocate, Term.tree, is.trees_relocate hG]
    exact enclosedTree_map hG (p.through q) is.trees b is

theorem Items.trees_relocate (hG : MovesRegions g G) (is : Items) :
    (is.relocate g).trees = Tree.mapRegionsOf G is.trees := by
  match is with
  | .nil => rfl
  | .last e =>
    rw [Items.relocate, Items.trees, e.tree_relocate hG]
    rfl
  | .cons e m is =>
    rw [Items.relocate, Items.trees, e.tree_relocate hG, is.trees_relocate hG]
    rfl

end

include hG

theorem Stmt.tree_relocate (s : Stmt) : (s.relocate g).tree = s.tree.mapRegions G := by
  rw [Stmt.tree, s.span_relocate, Stmt.relocate, s.expr.tree_relocate hG]
  exact over_map hG s.span "stmt" [s.expr.tree]

theorem trees_stmts_relocate (stmts : List Stmt) :
    (stmts.map (Stmt.relocate g)).map Stmt.tree =
      Tree.mapRegionsOf G (stmts.map Stmt.tree) := by
  induction stmts with
  | nil => rfl
  | cons s stmts ih =>
    rw [List.map_cons, List.map_cons, ih, s.tree_relocate hG]
    rfl

theorem Sentence.tree_relocate (s : Sentence) : (s.relocate g).tree = s.tree.mapRegions G := by
  cases s with
  | expr e => exact e.tree_relocate hG
  | program stmts =>
    have hspan : (spanOf? (stmts.map (Stmt.relocate g))).map Region.ofSpan =
        ((spanOf? stmts).map Region.ofSpan).map G := by
      unfold spanOf?
      rw [List.head?_map, List.getLast?_map]
      cases stmts.head? with
      | none => rfl
      | some first =>
        cases stmts.getLast? with
        | none => rfl
        | some last =>
          refine Eq.trans ?_ (congrArg some (hG (first.span.through last.span)))
          simp only [Option.map_some, Stmt.span_relocate]
          rfl
    rw [Sentence.relocate, Sentence.tree, trees_stmts_relocate hG, hspan]
    rfl

end Trees

/-! ### Meanings -/

section Meanings

variable {P : Place → Place} {radixFloats : Bool}

theorem fault_at_relocate (hP : MovesPlaces g P) (k : LiteralKind) (text : String) (p : Span)
    (fault : Fault) :
    fault.at (k.site text (p.map g)) = (fault.at (k.site text p)).movePlace P := by
  have hsite : k.site text (p.map g) = { k.site text p with place := P (k.site text p).place } :=
    congrArg (Site.mk k.kind.rule text) (hP p.start).symm
  cases fault with
  | malformed literal =>
    rw [Fault.at, hsite]
    rfl
  | _ => rfl

mutual

/-- What is built of an expression does not depend on its place, and an error moves along. -/
theorem Expr.build_relocate (hP : MovesPlaces g P) (e : Expr) (a : Nat) :
    (e.relocate g).build radixFloats a = (e.build radixFloats a).mapError (.movePlace P) := by
  match e with
  | .single t =>
    rw [Expr.relocate, Expr.build, t.build_relocate hP, Expr.build, mapError_map]
  | .binary l o m r =>
    rw [Expr.relocate, Expr.build, l.build_relocate hP, r.build_relocate hP, Expr.build,
      mapError_bind]
    simp only [mapError_bind]
    rfl

theorem Term.build_relocate (hP : MovesPlaces g P) (t : Term) (a : Nat) :
    (t.relocate g).build radixFloats a = (t.build radixFloats a).mapError (.movePlace P) := by
  match t with
  | .literal k text p =>
    rw [Term.relocate, Term.build, Term.build, mapError_map]
    cases k.value radixFloats text with
    | ok v => rfl
    | error fault => exact congrArg Except.error (fault_at_relocate hP k text p fault)
  | .enclosed .round p (.last e) q =>
    refine mapError_ite _ (fun _ => ?_) rfl
    rw [e.build_relocate hP, mapError_map]
  | .enclosed .round p .nil q => exact mapError_ite _ (fun _ => rfl) rfl
  | .enclosed .round p (.cons e m is) q =>
    refine mapError_ite _ (fun _ => ?_) rfl
    have his := Items.build_relocate hP (.cons e m is) (a - sequenceCost)
    exact (congrArg (Except.map _) his).trans (mapError_map ..).symm
  | .enclosed .square p is q =>
    refine mapError_ite _ (fun _ => ?_) rfl
    rw [is.build_relocate hP, mapError_map]

theorem Items.build_relocate (hP : MovesPlaces g P) (is : Items) (a : Nat) :
    (is.relocate g).build radixFloats a = (is.build radixFloats a).mapError (.movePlace P) := by
  match is with
  | .nil => rfl
  | .last e => rw [Items.relocate, Items.build, e.build_relocate hP, Items.build, mapError_map]
  | .cons e m is =>
    rw [Items.relocate, Items.build, e.build_relocate hP, is.build_relocate hP, Items.build,
      mapError_bind]
    simp only [mapError_bind]
    rfl

end

theorem Stmt.build_relocate (hP : MovesPlaces g P) (s : Stmt) (a : Nat) :
    (s.relocate g).build radixFloats a = (s.build radixFloats a).mapError (.movePlace P) := by
  rw [Stmt.build, Stmt.relocate, s.expr.build_relocate hP, Stmt.build, mapError_map]

theorem buildProgram_relocate (hP : MovesPlaces g P) (stmts : List Stmt) (a : Nat) :
    buildProgram radixFloats a (stmts.map (Stmt.relocate g)) =
      (buildProgram radixFloats a stmts).mapError (.movePlace P) := by
  rw [buildProgram, buildProgram, mapError_map]
  congr 1
  induction stmts with
  | nil => rfl
  | cons s stmts ih =>
    rw [List.map_cons, List.mapM_cons, s.build_relocate hP, ih, List.mapM_cons, mapError_bind]
    simp only [mapError_bind]
    rfl

end Meanings

/-! ### Phrases on given tokens -/

/-- The expression as if all its tokens were at the beginning of a text. -/
def Expr.unplaced (e : Expr) : Expr := e.relocate fun _ => .origin

def Term.unplaced (t : Term) : Term := t.relocate fun _ => .origin

def Items.unplaced (is : Items) : Items := is.relocate fun _ => .origin

def Stmt.unplaced (s : Stmt) : Stmt := s.relocate fun _ => .origin

def Sentence.unplaced (s : Sentence) : Sentence := s.relocate fun _ => .origin

theorem exists_token {ts : List Token} {l : Lexeme} {ls : List Lexeme}
    (h : ts.map (·.lexeme) = l :: ls) :
    ∃ p us, ts = ⟨l, p⟩ :: us ∧ us.map (·.lexeme) = ls := by
  obtain ⟨⟨lexeme, p⟩, us, rfl, rfl, hus⟩ := List.map_eq_cons_iff.mp h
  exact ⟨p, us, rfl, hus⟩

mutual

theorem Expr.exists_placed (e : Expr) {ts : List Token}
    (h : ts.map (·.lexeme) = e.tokens.map (·.lexeme)) :
    ∃ e' : Expr, e'.tokens = ts ∧ e'.unplaced = e.unplaced := by
  -- the given tokens split where those of the phrase do
  match e with
  | .single t =>
    obtain ⟨t', rfl, ht⟩ := t.exists_placed h
    exact ⟨.single t', rfl, congrArg Expr.single ht⟩
  | .binary l o m r =>
    rw [Expr.tokens, List.map_append] at h
    obtain ⟨ts₁, ts₂, rfl, h₁, h₂⟩ := List.map_eq_append_iff.mp h
    obtain ⟨p, ts₃, rfl, h₃⟩ := exists_token h₂
    obtain ⟨l', rfl, hl⟩ := l.exists_placed h₁
    obtain ⟨r', rfl, hr⟩ := r.exists_placed h₃
    refine ⟨.binary l' o p r', rfl, ?_⟩
    show Expr.binary l'.unplaced o ⟨.origin, .origin⟩ r'.unplaced = _
    rw [hl, hr]
    rfl

theorem Term.exists_placed (t : Term) {ts : List Token}
    (h : ts.map (·.lexeme) = t.tokens.map (·.lexeme)) :
    ∃ t' : Term, t'.tokens = ts ∧ t'.unplaced = t.unplaced := by
  match t with
  | .literal k text p =>
    obtain ⟨q, us, rfl, hus⟩ := exists_token h
    rw [List.map_eq_nil_iff.mp hus]
    exact ⟨.literal k text q, rfl, rfl⟩
  | .enclosed b p is q =>
    obtain ⟨p', us, rfl, hus⟩ := exists_token h
    rw [List.map_append] at hus
    obtain ⟨ts₁, ts₂, rfl, h₁, h₂⟩ := List.map_eq_append_iff.mp hus
    obtain ⟨q', ts₃, rfl, h₃⟩ := exists_token h₂
    obtain ⟨is', rfl, his⟩ := is.exists_placed h₁
    rw [List.map_eq_nil_iff.mp h₃]
    exact ⟨.enclosed b p' is' q', rfl,
      congrArg (Term.enclosed b ⟨.origin, .origin⟩ · ⟨.origin, .origin⟩) his⟩

theorem Items.exists_placed (is : Items) {ts : List Token}
    (h : ts.map (·.lexeme) = is.tokens.map (·.lexeme)) :
    ∃ is' : Items, is'.tokens = ts ∧ is'.unplaced = is.unplaced := by
  match is with
  | .nil =>
    rw [List.map_eq_nil_iff.mp h]
    exact ⟨.nil, rfl, rfl⟩
  | .last e =>
    obtain ⟨e', rfl, he⟩ := e.exists_placed h
    exact ⟨.last e', rfl, congrArg Items.last he⟩
  | .cons e m is =>
    rw [Items.tokens, List.map_append] at h
    obtain ⟨ts₁, ts₂, rfl, h₁, h₂⟩ := List.map_eq_append_iff.mp h
    obtain ⟨m', ts₃, rfl, h₃⟩ := exists_token h₂
    obtain ⟨e', rfl, he⟩ := e.exists_placed h₁
    obtain ⟨is', rfl, his⟩ := is.exists_placed h₃
    refine ⟨.cons e' m' is', rfl, ?_⟩
    show Items.cons e'.unplaced ⟨.origin, .origin⟩ is'.unplaced = _
    rw [he, his]
    rfl

end

theorem Stmt.exists_placed (s : Stmt) {ts : List Token}
    (h : ts.map (·.lexeme) = s.tokens.map (·.lexeme)) :
    ∃ s' : Stmt, s'.tokens = ts ∧ s'.unplaced = s.unplaced := by
  rw [Stmt.tokens, List.map_append] at h
  obtain ⟨ts₁, ts₂, rfl, h₁, h₂⟩ := List.map_eq_append_iff.mp h
  obtain ⟨m, ts₃, rfl, h₃⟩ := exists_token h₂
  obtain ⟨e, rfl, he⟩ := s.expr.exists_placed h₁
  rw [List.map_eq_nil_iff.mp h₃]
  exact ⟨⟨e, m⟩, rfl, congrArg (Stmt.mk · ⟨.origin, .origin⟩) he⟩

theorem exists_placed_stmts (stmts : List Stmt) {ts : List Token}
    (h : ts.map (·.lexeme) = (stmts.flatMap Stmt.tokens).map (·.lexeme)) :
    ∃ stmts' : List Stmt, stmts'.flatMap Stmt.tokens = ts ∧
      stmts'.map Stmt.unplaced = stmts.map Stmt.unplaced := by
  induction stmts generalizing ts with
  | nil =>
    rw [List.map_eq_nil_iff.mp h]
    exact ⟨[], rfl, rfl⟩
  | cons s stmts ih =>
    rw [List.flatMap_cons, List.map_append] at h
    obtain ⟨ts₁, ts₂, rfl, h₁, h₂⟩ := List.map_eq_append_iff.mp h
    obtain ⟨s', rfl, hs⟩ := s.exists_placed h₁
    obtain ⟨stmts', rfl, hstmts⟩ := ih h₂
    exact ⟨s' :: stmts', rfl, by rw [List.map_cons, hs, hstmts, List.map_cons]⟩

/-- A sentence can be put on any tokens that say the same. -/
theorem Sentence.exists_placed (s : Sentence) {ts : List Token}
    (h : ts.map (·.lexeme) = s.tokens.map (·.lexeme)) :
    ∃ s' : Sentence, s'.tokens = ts ∧ s'.unplaced = s.unplaced := by
  cases s with
  | program stmts =>
    obtain ⟨stmts', rfl, hstmts⟩ := exists_placed_stmts stmts h
    exact ⟨.program stmts', rfl, congrArg Sentence.program hstmts⟩
  | expr e =>
    obtain ⟨e', rfl, he⟩ := e.exists_placed h
    exact ⟨.expr e', rfl, congrArg Sentence.expr he⟩

theorem Sentence.unplaced_tree {s s' : Sentence} (h : s'.unplaced = s.unplaced) :
    s'.tree.unplaced = s.tree.unplaced := by
  -- moving everything to one place gives all regions the same value
  have htree (s : Sentence) :
      s.unplaced.tree = s.tree.mapRegions fun _ => .ofSpan ⟨.origin, .origin⟩ :=
    s.tree_relocate fun _ => rfl
  have hmap := congrArg Sentence.tree h
  rw [htree, htree] at hmap
  exact Tree.unplaced_eq_of_mapRegions hmap

end Phrase

end RuleTree
