import RuleTree.Source.Token

/-!
# Phrases

The phrases of the language with every token that they are made of. An enclosed list of items is
kept the same way whether it is an array, a tuple or a group: round brackets make a group of a
single item without a comma, and a tuple of everything else.

* `Expr.tokens`, `Term.tokens` and `Items.tokens` give back the tokens of a phrase in order.
-/

namespace RuleTree.Phrase

mutual

/-- A term, or two terms with an operator between them. -/
inductive Expr
  | single (term : Term)
  | binary (left : Term) (operator : Operator) (mark : Span) (right : Term)

/-- A literal, or items between brackets. -/
inductive Term
  | literal (kind : LiteralKind) (text : String) (span : Span)
  | enclosed (bracket : Bracket) (opening : Span) (items : Items) (closing : Span)

/-- Expressions separated by commas, where one more comma may follow the last. -/
inductive Items
  | nil
  | last (item : Expr)
  | cons (item : Expr) (comma : Span) (rest : Items)

end

/-- An expression with the semicolon that ends it. -/
structure Stmt where
  expr : Expr
  semicolon : Span

/-- What a whole source is read as. -/
inductive Sentence
  | program (stmts : List Stmt)
  | expr (e : Expr)

/-! ## Tokens -/

mutual

def Expr.tokens : Expr → List Token
  | .single t => t.tokens
  | .binary l o m r => l.tokens ++ ⟨.operator o, m⟩ :: r.tokens

def Term.tokens : Term → List Token
  | .literal k s p => [⟨.literal k s, p⟩]
  | .enclosed b p is q => ⟨.opening b, p⟩ :: (is.tokens ++ [⟨.closing b, q⟩])

def Items.tokens : Items → List Token
  | .nil => []
  | .last e => e.tokens
  | .cons e m is => e.tokens ++ ⟨.comma, m⟩ :: is.tokens

end

def Stmt.tokens (s : Stmt) : List Token :=
  s.expr.tokens ++ [⟨.semicolon, s.semicolon⟩]

def Sentence.tokens : Sentence → List Token
  | .program stmts => stmts.flatMap Stmt.tokens
  | .expr e => e.tokens

/-! ## Spans -/

/-- From the first to the last token of a term. -/
def Term.span : Term → Span
  | .literal _ _ p => p
  | .enclosed _ p _ q => p.through q

/-- From the first to the last token of an expression. -/
def Expr.span : Expr → Span
  | .single t => t.span
  | .binary l _ _ r => l.span.through r.span

def Stmt.span (s : Stmt) : Span := s.expr.span.through s.semicolon

/-- From the first to the last token of a list of statements, if there are any. -/
def spanOf? (stmts : List Stmt) : Option Span :=
  match stmts.head?, stmts.getLast? with
  | some first, some last => some (first.span.through last.span)
  | _, _ => none

end RuleTree.Phrase
