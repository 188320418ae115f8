import GeneratedKeys.Statement.Parse

/-!
# `GeneratedKeys.Proofs.Value.Derives`: the grammar of values

The grammar of values as a grammar, without binding powers:

    value   := operand tail*
    operand := ('+' | '-')* primary
    tail    := COLLATE name | ('+' | '-' | '*' | '/' | '||') operand | negative number

`Derives x ts rest` says that the tokens of `ts` in front of `rest` are derived from the
nonterminal `x`. The rules refer to kinds of tokens only. Data types have a grammar of
their own: the type of a CAST is any stretch of tokens that reading a data type consumes
without a repair (`TypeRange`).
-/

set_option autoImplicit false

namespace GeneratedKeys

/-- The kinds of tokens that are a value by themselves, whichever value they carry. -/
inductive Literal : TokenKind → Prop where
  | integer (negative : Bool) : Literal (.integer negative)
  | real (negative : Bool) : Literal (.real negative)
  | string (value : Text) : Literal (.string value)
  | parameter : Literal .question
  | null : Literal (.keyword .null)
  | dbKey : Literal (.keyword .dbKey)
  | currentUser : Literal (.keyword .currentUser)
  | currentRole : Literal (.keyword .currentRole)
  | currentDate : Literal (.keyword .currentDate)
  | currentTime : Literal (.keyword .currentTime)
  | currentTimestamp : Literal (.keyword .currentTimestamp)

/-- The kinds of the operators between two operands. How strongly they bind does not matter for
which tokens form a value. -/
inductive Infix : TokenKind → Prop where
  | plus : Infix .plus
  | minus : Infix .minus
  | star : Infix .star
  | slash : Infix .slash
  | concat : Infix .concat

/-- The kinds of names, quoted or not. Keywords are not among them. -/
inductive Name : TokenKind → Prop where
  | plain (name : Text) : Name (.identifier name)
  | quoted (name : Text) : Name (.quotedIdentifier name)

/-- The tokens of `ts` in front of `rest` are what reading a data type consumes, without a
repair. -/
def TypeRange (ts rest : List Token) : Prop :=
  ∃ t, Grammar.dataType.read (.initial ts 0) = .ok t ∧ t.after = rest ∧ t.repairs = []

/-- The nonterminals of the grammar. Repetitions and optional pieces have nonterminals of their own.
-/
inductive Nonterminal where
  | value
  | operand
  | tails
  | tail
  | primary
  /-- One or more values, with commas between. -/
  | values
  /-- The values behind the first one. -/
  | furtherValues
  /-- A value, with one of the words in front or none. -/
  | qualified (words : List Keyword)
  /-- A word and a value, or nothing. -/
  | optional (word : Keyword)

/-- The tokens of `ts` in front of `rest` are derived from a nonterminal. There is one constructor
for each production of the grammar. -/
inductive Derives : Nonterminal → List Token → List Token → Prop where
  | value {ts mid rest : List Token} :
      Derives .operand ts mid → Derives .tails mid rest → Derives .value ts rest
  -- Signs and operators
  | signed {t : Token} {ts rest : List Token} :
      t.kind = .plus ∨ t.kind = .minus → Derives .operand ts rest →
        Derives .operand (t :: ts) rest
  | unsigned {ts rest : List Token} : Derives .primary ts rest → Derives .operand ts rest
  | noTail {ts : List Token} : Derives .tails ts ts
  | tails {ts mid rest : List Token} :
      Derives .tail ts mid → Derives .tails mid rest → Derives .tails ts rest
  | collation {t name : Token} {rest : List Token} :
      t.kind = .keyword .collate → Name name.kind → Derives .tail (t :: name :: rest) rest
  | operation {t : Token} {ts rest : List Token} :
      Infix t.kind → Derives .operand ts rest → Derives .tail (t :: ts) rest
  | subtraction {t : Token} {rest : List Token} :
      t.kind = .integer true ∨ t.kind = .real true → Derives .tail (t :: rest) rest
  -- Primaries
  | literal {t : Token} {rest : List Token} : Literal t.kind → Derives .primary (t :: rest) rest
  | enclosed {l r : Token} {ts rest : List Token} :
      l.kind = .leftParen → Derives .value ts (r :: rest) → r.kind = .rightParen →
        Derives .primary (l :: ts) rest
  | substring {f l m r : Token} {ts mid mid' rest : List Token} :
      f.kind = .keyword .substring → l.kind = .leftParen → Derives .value ts (m :: mid) →
        m.kind = .keyword .from → Derives .value mid mid' →
          Derives (.optional .for) mid' (r :: rest) → r.kind = .rightParen →
            Derives .primary (f :: l :: ts) rest
  | trim {f l r : Token} {ts mid rest : List Token} :
      f.kind = .keyword .trim → l.kind = .leftParen →
        Derives (.qualified [.both, .leading, .trailing]) ts mid →
          Derives (.optional .from) mid (r :: rest) → r.kind = .rightParen →
            Derives .primary (f :: l :: ts) rest
  | extract {f l m r : Token} {ts mid rest : List Token} :
      f.kind = .keyword .extract → l.kind = .leftParen → Derives .value ts (m :: mid) →
        m.kind = .keyword .from → Derives .value mid (r :: rest) → r.kind = .rightParen →
          Derives .primary (f :: l :: ts) rest
  | countAll {f l s r : Token} {rest : List Token} :
      f.kind = .keyword .count → l.kind = .leftParen → s.kind = .star → r.kind = .rightParen →
        Derives .primary (f :: l :: s :: r :: rest) rest
  | aggregate {f l r : Token} {k : Keyword} {ts rest : List Token} :
      f.kind = .keyword k → k ∈ [Keyword.sum, .count, .avg, .minimum, .maximum] →
        l.kind = .leftParen → Derives (.qualified [.all, .distinct]) ts (r :: rest) →
          r.kind = .rightParen → Derives .primary (f :: l :: ts) rest
  | nextValue {f v o name : Token} {rest : List Token} :
      f.kind = .keyword .next → v.kind = .keyword .value → o.kind = .keyword .for →
        Name name.kind → Derives .primary (f :: v :: o :: name :: rest) rest
  | genId {f l name c i r : Token} {b : Bool} {rest : List Token} :
      f.kind = .keyword .genId → l.kind = .leftParen → Name name.kind → c.kind = .comma →
        i.kind = .integer b → r.kind = .rightParen →
          Derives .primary (f :: l :: name :: c :: i :: r :: rest) rest
  | cast {f l a r : Token} {ts mid rest : List Token} :
      f.kind = .keyword .cast → l.kind = .leftParen → Derives .value ts (a :: mid) →
        a.kind = .keyword .as → TypeRange mid (r :: rest) → r.kind = .rightParen →
          Derives .primary (f :: l :: ts) rest
  | call {name l r : Token} {ts rest : List Token} :
      Name name.kind → l.kind = .leftParen → Derives .values ts (r :: rest) →
        r.kind = .rightParen → Derives .primary (name :: l :: ts) rest
  | emptyCall {name l r : Token} {rest : List Token} :
      Name name.kind → l.kind = .leftParen → r.kind = .rightParen →
        Derives .primary (name :: l :: r :: rest) rest
  | element {name l r : Token} {ts rest : List Token} :
      Name name.kind → l.kind = .leftBracket → Derives .values ts (r :: rest) →
        r.kind = .rightBracket → Derives .primary (name :: l :: ts) rest
  | rowKey {name d k : Token} {rest : List Token} :
      Name name.kind → d.kind = .dot → k.kind = .keyword .dbKey →
        Derives .primary (name :: d :: k :: rest) rest
  | qualifiedColumn {name d column : Token} {rest : List Token} :
      Name name.kind → d.kind = .dot → Name column.kind →
        Derives .primary (name :: d :: column :: rest) rest
  | column {name : Token} {rest : List Token} :
      Name name.kind → Derives .primary (name :: rest) rest
  -- Lists and options
  | values {ts mid rest : List Token} :
      Derives .value ts mid → Derives .furtherValues mid rest → Derives .values ts rest
  | lastValue {ts : List Token} : Derives .furtherValues ts ts
  | furtherValue {c : Token} {ts mid rest : List Token} :
      c.kind = .comma → Derives .value ts mid → Derives .furtherValues mid rest →
        Derives .furtherValues (c :: ts) rest
  | unqualified {words : List Keyword} {ts rest : List Token} :
      Derives .value ts rest → Derives (.qualified words) ts rest
  | qualifier {words : List Keyword} {t : Token} {k : Keyword} {ts rest : List Token} :
      t.kind = .keyword k → k ∈ words → Derives .value ts rest →
        Derives (.qualified words) (t :: ts) rest
  | absent {word : Keyword} {ts : List Token} : Derives (.optional word) ts ts
  | present {word : Keyword} {t : Token} {ts rest : List Token} :
      t.kind = .keyword word → Derives .value ts rest → Derives (.optional word) (t :: ts) rest

end GeneratedKeys
