import GeneratedKeys.Statement.Rule

/-!
# `GeneratedKeys.Statement.Grammar`: the rules of the language

The rules of INSERT, DELETE, UPDATE and UPDATE OR INSERT statements, of the values in
them and of the data types that a CAST names. Conditions and sub-selects are not
described: a statement skips them up to its RETURNING clause or its end.
-/

set_option autoImplicit false

namespace GeneratedKeys

namespace Grammar

open Rule

/-! ### Values -/

/-- How strongly the operator that the token stands for binds what precedes it. A number
written with a minus sign behind an operand is a subtraction. -/
def leftPower? : TokenKind → Option Nat
  | .keyword .collate => some 9
  | .star | .slash => some 5
  | .plus | .minus | .integer true | .real true => some 3
  | .concat => some 1
  | _ => none

/-- Whether a token goes on with a value whose operators bind at least as `power`. A token that
stands for no operator ends the value, whatever the power. -/
def extendsValue (power : Nat) (kind : TokenKind) : Bool :=
  (leftPower? kind).any fun left => power ≤ left

/-- A sign, in front of an operand or between two of them. A number that is written with its sign is
one token and not meant here. -/
def isSign : TokenKind → Bool
  | .plus | .minus => true
  | _ => false

/-- A number written with a minus sign. Behind an operand it is read once more, as the operand of a
subtraction. -/
def isNegative : TokenKind → Bool
  | .integer sign | .real sign => sign
  | _ => false

/-- A token that is a value by itself: a number, a string, a parameter, or one of the words that
stand for a value. -/
def isLiteral : TokenKind → Bool
  | .integer _ | .real _ | .string _ | .question => true
  | .keyword k =>
    [.null, .dbKey, .currentUser, .currentRole, .currentDate, .currentTime,
      .currentTimestamp].contains k
  | _ => false

/-- A number, which messages call an integer literal. The test compares classes of tokens, so one
with a minus sign passes as well. -/
def number : TokenKind := .integer false

/-- One or more values, with commas between. Each of them may contain any operator. -/
def values : Rule :=
  separated (.value 0)

/-- `(value)`. Inside the parentheses every operator is read, however strongly those around it bind.
-/
def enclosed : Rule :=
  inOrder [.take, .value 0, .expect .rightParen]

/-- `SUBSTRING(value FROM value [FOR value])`. The two words are keywords, so no value before them
can take them for a name. -/
def substringCall : Rule :=
  inOrder [.take, .expect .leftParen, .value 0, word .from, .value 0,
    optional (isWord .for) (.seq .take (.value 0)), .expect .rightParen]

/-- `TRIM([BOTH | LEADING | TRAILING] value [FROM value])`. -/
def trimCall : Rule :=
  inOrder [.take, .expect .leftParen, optional (isWordOf [.both, .leading, .trailing]) .take,
    .value 0, optional (isWord .from) (.seq .take (.value 0)), .expect .rightParen]

/-- `EXTRACT(value FROM value)`. -/
def extractCall : Rule :=
  inOrder [.take, .expect .leftParen, .value 0, word .from, .value 0, .expect .rightParen]

/-- `[ALL | DISTINCT] value`, the inside of an aggregate. Without either word all values count. -/
def aggregated : Rule :=
  .seq (optional (isWordOf [.all, .distinct]) .take) (.value 0)

/-- `COUNT(*)` or `COUNT([ALL | DISTINCT] value)`. A star can start no value, so one token decides.
-/
def countCall : Rule :=
  inOrder [.take, .expect .leftParen, .branch [isA .star] .take aggregated, .expect .rightParen]

/-- `SUM`, `AVG`, `MIN` or `MAX` over `[ALL | DISTINCT] value`. A star is not allowed in these. -/
def aggregateCall : Rule :=
  inOrder [.take, .expect .leftParen, aggregated, .expect .rightParen]

/-- `NEXT VALUE FOR sequence`. The name of the sequence is not qualified. -/
def nextValue : Rule :=
  inOrder [.take, word .value, word .for, name]

/-- `GEN_ID(generator, increment)`. The increment is a number token and no value in general. -/
def genIdCall : Rule :=
  inOrder [.take, .expect .leftParen, name, .expect .comma, .expect number, .expect .rightParen]

/-- A value that starts with a name: a call, an array element, a row key, a qualified or a plain
column. The token behind the name decides which. -/
def named : Rule :=
  .seq .take
    (.branch [isA .leftParen]
      (inOrder [.take, .branch [isA .rightParen] .empty values, .expect .rightParen])
      (.branch [isA .leftBracket]
        (inOrder [.take, values, .expect .rightBracket])
        (.branch [isA .dot, isWord .dbKey] (.seq .take .take)
          (.branch [isA .dot, TokenKind.isName] (.seq .take .take) .empty))))

/-! ### Data types -/

/-- An optional `CHARACTER SET name`. Once the first word is there, the others must follow. -/
def charset : Rule :=
  optional (isWord .character) (inOrder [.take, word .set, name])

/-- An optional `(length)`, in characters or in bytes. Its size is not checked. -/
def length : Rule :=
  optional (isA .leftParen) (inOrder [.take, .expect number, .expect .rightParen])

/-- An optional `(precision[, scale])`. Behind a comma the scale must follow. -/
def precision : Rule :=
  optional (isA .leftParen)
    (inOrder [.take, .expect number, optional (isA .comma) (.seq .take (.expect number)),
      .expect .rightParen])

/-- `BLOB(n[, t])` or `BLOB [SUB_TYPE t] [SEGMENT SIZE n] [CHARACTER SET name]`. -/
def blobType : Rule :=
  .seq .take
    (.branch [isA .leftParen]
      (inOrder [.take, optional (isA number) .take,
        optional (isA .comma) (.seq .take (.expect number)), .expect .rightParen])
      (inOrder
        [optional (isWord .subType) (.seq .take (.branch [isA number] .take name)),
          optional (isWord .segment) (inOrder [.take, word .size, .expect number]),
          charset]))

/-- A type that is no array. The character set of a character type is read only if
`withCharset` is set. -/
def scalarType (withCharset : Bool) : Rule :=
  .branch [isWordOf [.char, .varchar]]
    (inOrder [.take, length, if withCharset then charset else .empty])
    (.branch [isWordOf [.decimal, .numeric]] (.seq .take precision)
      (.branch
        [isWordOf [.bigint, .integer, .int, .smallint, .float, .date, .time, .timestamp]] .take
        (.branch [isWord .double] (.seq .take (word .precision))
          (.branch [isWord .blob] blobType (.fail "data type")))))

/-- An upper bound written without a blank behind its colon: `:10`. -/
def isColonBound : TokenKind → Bool
  | .identifier (':' :: digits) => !digits.isEmpty && digits.all Char.isDigit
  | _ => false

/-- `lower[:upper]`, the bounds of one dimension of an array. The upper bound is optional. Written
without a blank in front of it, it is one token together with its colon. -/
def range : Rule :=
  .seq (.expect number)
    (.branch [isA .colon] (.seq .take (.expect number)) (optional isColonBound .take))

/-- `[range, ...]`, one range for each dimension of an array. -/
def ranges : Rule :=
  inOrder [.expect .leftBracket, separated range, .expect .rightBracket]

/-- A data type. It is an array if a type and an opening bracket can be read here, which an attempt
finds out before anything is kept. -/
def dataType : Rule :=
  .foresee (.seq (scalarType false) (.expect .leftBracket))
    (inOrder [scalarType false, ranges, charset])
    (scalarType true)

/-- `CAST(value AS type)`. The type is the only place where data types are read. -/
def castCall : Rule :=
  inOrder [.take, .expect .leftParen, .value 0, word .as, dataType, .expect .rightParen]

/-! ### Operands and operators -/

/-- A value without signs and operators. The tests exclude each other, so their order does not
matter; a token that passes none starts no value. -/
def primary : Rule :=
  .branch [isLiteral] .take
    (.branch [isA .leftParen] enclosed
      (.branch [isWord .substring] substringCall
        (.branch [isWord .trim] trimCall
          (.branch [isWord .extract] extractCall
            (.branch [isWord .count] countCall
              (.branch [isWordOf [.sum, .avg, .minimum, .maximum]] aggregateCall
                (.branch [isWord .next] nextValue
                  (.branch [isWord .genId] genIdCall
                    (.branch [isWord .cast] castCall
                      (.branch [TokenKind.isName] named (.fail "value")))))))))))

/-- A primary with signs in front. A sign binds more strongly than any operator between
two values. -/
def operand : Rule :=
  .branch [isSign] (.seq .take (.value 7)) primary

/-- One operator with what follows it. An operand on the right is read with a greater power than the
operator's own, so operators of one strength group to the left. -/
def operation : Rule :=
  .branch [isWord .collate] (.seq .take name)
    (.branch [isNegative] (.value 4)
      (.branch [isA .concat] (.seq .take (.value 2))
        (.branch [isSign] (.seq .take (.value 4)) (.seq .take (.value 6)))))

/-- A value whose operators all bind at least as strongly as `power`. Weaker operators behind it are
left to the value around it. -/
def value (power : Nat) : Rule :=
  .seq operand (.repeatWhile (extendsValue power) operation)

/-! ### Clauses -/

/-- `name` or `qualifier.name`. Only one qualifier is read, and a point without a name behind it is
left to whoever comes next. -/
def column : Rule :=
  .seq name (.branch [isA .dot, TokenKind.isName] (.seq .take .take) .empty)

/-- The table of a statement. Its name is kept as written, quotes included. -/
def table : Rule :=
  .record .table name

/-- `(column, ...)`. The columns are kept if all of them can be read; the closing parenthesis is
expected after that, so a missing one does not lose them. -/
def targetColumns : Rule :=
  inOrder [.take, .together (separated (.record .column column)), .expect .rightParen]

/-- `VALUES (value, ...)`. Each value is kept as soon as it is read, so those in front of a problem
are reported. -/
def valuesClause : Rule :=
  inOrder [word .values, .expect .leftParen, separated (.record .value (.value 0)),
    .expect .rightParen]

/-- `DEFAULT VALUES`. It takes the place of a list of values, and is noted as such. -/
def defaultValues : Rule :=
  inOrder [.take, word .values, .defaults]

/-- `column = value`. The two sides are kept together, so an assignment that breaks off leaves no
column without its value. -/
def assignment : Rule :=
  .together (inOrder [.record .column column, .expect .eq, .record .value (.value 0)])

/-- `MATCHING (column, ...)` or `MATCHING column, ...`. The columns are not kept. -/
def matchingClause : Rule :=
  .seq .take
    (.branch [isA .leftParen] (inOrder [.take, separated column, .expect .rightParen])
      (separated column))

/-- An optional alias, with or without AS in front of it. It is not kept as a part of its own. -/
def aliasName : Rule :=
  .branch [isWord .as] (.seq .take name) (optional TokenKind.isName .take)

/-- `*`, or a column with an optional alias. What is kept is the column without its alias. -/
def returningItem : Rule :=
  .branch [isA .star] (.record .returning .take)
    (.together (.seq (.record .returning column) aliasName))

/-- `RETURNING item, ...`. The items that were read in front of a problem stay. -/
def returningClause : Rule :=
  .seq .take (separated returningItem)

/-- The end of a statement of a type: an optional RETURNING clause, an optional semicolon, and
nothing more. The type is settled before the semicolon, so it is known also if something stands
behind. -/
def ending (type : StatementType) : Rule :=
  inOrder [optional (isWord .returning) returningClause, .declare type,
    optional (isA .semicolon) .take, .finish]

/-! ### Statements -/

/-- `INSERT INTO table [columns] (VALUES ... | SELECT ... | DEFAULT VALUES)`. Behind SELECT
everything up to the RETURNING clause is passed over. -/
def insert : Rule :=
  inOrder [word .insert, word .into, table, optional (isA .leftParen) targetColumns,
    .branch [isWord .values] valuesClause
      (.branch [isWord .select] (.seq .take .skip)
        (.branch [isWord .default] defaultValues (.fail "VALUES, SELECT, or DEFAULT VALUES"))),
    ending .insert]

/-- `DELETE FROM table ...`. The condition is passed over and not described. -/
def delete : Rule :=
  inOrder [word .delete, word .from, table, .skip, ending .delete]

/-- `UPDATE table SET column = value, ...`. What follows the assignments is passed over up to the
RETURNING clause. -/
def update : Rule :=
  inOrder [word .update, table, word .set, separated assignment, .skip, ending .update]

/-- `UPDATE OR INSERT INTO table [columns] VALUES ... [MATCHING ...]`. Unlike INSERT it takes its
values from a list only. -/
def updateOrInsert : Rule :=
  inOrder [word .update, word .or, word .insert, word .into, table,
    optional (isA .leftParen) targetColumns, valuesClause,
    optional (isWord .matching) matchingClause, ending .updateOrInsert]

/-- The rule of a type of statement. Which of the four is read was decided by the first tokens, in
`announced`. -/
def statement : StatementType → Rule
  | .insert => insert
  | .delete => delete
  | .update => update
  | .updateOrInsert => updateOrInsert

end Grammar

end GeneratedKeys
