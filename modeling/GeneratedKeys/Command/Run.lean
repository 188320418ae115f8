import GeneratedKeys.Command.Help
import GeneratedKeys.Command.Listing
import GeneratedKeys.Text.Escaped
import GeneratedKeys.Text.Json

/-!
# `GeneratedKeys.Command.Run`: what the program answers

`Command.respond` maps the arguments, the environment and the text on standard input to
an exit status and the texts on both outputs. Problems of a statement are reported on
the error output and do not change the status.
-/

set_option autoImplicit false

namespace GeneratedKeys

/-- The end of a run. Both outputs are texts, so a run is a function of its arguments, the
environment and the input. -/
structure Response where
  /-- 0 for success, 1 for a request that failed, 2 for unusable arguments. -/
  status : Nat
  output : Text
  errors : Text
  deriving DecidableEq, Repr

namespace Response

/-- The texts with a line end behind each. No text gives no line at all. -/
def lines (ts : List Text) : Text :=
  ts.flatMap (· ++ ['\n'])

/-- A message on the error output. It may quote the statement, so what could steer the
terminal is escaped in it. -/
def note (message : String) : Text :=
  " INFO ".toList ++ Text.disarmed message.toList

/-- A run that printed these lines and reported these messages. Problems in a statement do not make
the run fail. -/
def done (output : List Text) (messages : List String) : Response :=
  ⟨0, lines output, lines (messages.map note)⟩

/-- A run that failed: its status is 1, it prints nothing, and its only message says why. -/
def failed (message : String) : Response :=
  ⟨1, [], lines ["Error: ".toList ++ message.toList]⟩

/-- A run with unusable arguments: its status is 2, and the statement is not looked at. -/
def unusable : Response :=
  ⟨2, [], lines ["usage: fbdml [-v] (tokens | parse | rewrite) SQL [OPTION]...".toList]⟩

end Response

/-! ### JSON reports -/

/-- The name of a kind of problem in reports, which differs from the wording of messages. -/
def DiagnosticKind.label : DiagnosticKind → String
  | lexical => "Lexical"
  | recovered => "RecoverableMismatch"
  | abandoned => "Syntax"

/-- The report of a place, by its two byte offsets. -/
def Span.json (s : Span) : Json :=
  .object [("start", .nat s.start), ("end", .nat s.stop)]

/-- The report of a problem, with its kind, its message and its place apart from each other. -/
def Diagnostic.json (d : Diagnostic) : Json :=
  .object [("kind", .text d.kind.label.toList), ("message", .text d.message.toList),
    ("span", d.span.json)]

/-- The report of all problems, with the counter that is kept beside them. -/
def Diagnostics.json (ds : Diagnostics) : Json :=
  .object [("mismatch_count", .nat ds.count), ("entries", .array (ds.entries.map Diagnostic.json))]

/-- The report of the parts of a statement. A part that is not known is `null`, and a list without
members is empty. -/
def Statement.json (s : Statement Text) : Json :=
  .object [("statement_type", .ofText? (s.type?.map fun t => t.name.toList)),
    ("table_name", .ofText? s.table?), ("columns", .ofTexts s.columns),
    ("values", .ofTexts s.values), ("returning_columns", .ofTexts s.returning),
    ("default_values", .bool s.defaultValues)]

/-- The report of a statement that was read, its parts and its problems side by side. -/
def ParsedStatement.json (p : ParsedStatement) : Json :=
  .object [("model", p.statement.json), ("diagnostics", p.diagnostics.json)]

/-- The report of a statement to execute, with the flag that a caller has to look at before asking
for keys. -/
def Query.json (q : Query) : Json :=
  .object [("generates_keys", .bool q.generatesKeys), ("sql", .text q.sql)]

/-! ### Commands -/

/-- The listing of the parts of a statement, one line for each kind of part. A statement that
inserts default values has a line more. -/
def Statement.listing (s : Statement Text) : List Text :=
  let joined := [',', ' '].intercalate
  ["type:      ".toList ++ (match s.type? with
      | some t => t.name.toList
      | none => "unidentified".toList),
    "table:     ".toList ++ s.table?.getD ['-'],
    "columns:   ".toList ++ joined s.columns,
    "values:    ".toList ++ joined s.values,
    "returning: ".toList ++ joined s.returning]
  ++ if s.defaultValues then ["default values".toList] else []

namespace QueryOptions

/-- The connection that the options describe. The given columns are those of the table of the
statement, under its stored name. The statement is parsed for its table whatever problems are met;
the builder parses it again and is more strict. -/
def metadata (o : QueryOptions) (sql : Text) : Metadata :=
  let m := Metadata.ofConnection o.version o.dialect
  match parse sql with
  | .error _ => m
  | .ok p =>
    match p.statement.table?, o.tableColumns with
    | some table, c :: cs => m.withTable (ObjectName.normalize table) (c :: cs)
    | _, _ => m

/-- The statement to execute for a request on the connection that the options describe. -/
def queryFor (o : QueryOptions) (sql : Text) (r : Request) : Except KeysError Query :=
  (Support.configure o.mode o.version).buildQuery sql r (o.metadata sql)

/-- The statement to execute for the request that the options make. The text is handed in, since it
may have come from standard input. -/
def query (o : QueryOptions) (sql : Text) : Except KeysError Query :=
  o.queryFor sql o.request

end QueryOptions

namespace Command

/-- The statement of a command as given. A lone dash stands for standard input. -/
def statement? : Command → Option Text
  | version | help _ => none
  | tokens sql _ | parse sql _ => some sql
  | query o => some o.sql

/-- Whether a command reads standard input, which is asked for by a lone dash in place of the
statement. -/
def readsInput (c : Command) : Bool :=
  c.statement? == some ['-']

/-- The tokens of a statement and the problems among them. Faulty tokens are listed as well, so the
listing never fails. -/
def respondTokens (sql : Text) (all : Bool) : Response :=
  let lexer := Lexer.ofText sql
  let (ts, l) := if all then lexer.restAll else lexer.restVisible
  .done (ts.map Token.line) l.problems.messages

/-- The parts of a statement and the problems met. The JSON report holds both. -/
def respondParse (sql : Text) (json : Bool) : Response :=
  match GeneratedKeys.parse sql with
  | .error e => .failed e.message
  | .ok p =>
    if json then .done [p.json.pretty] []
    else .done p.statement.listing p.diagnostics.messages

/-- The statement to execute. That it returns no keys is a message and no failure. -/
def respondQuery (o : QueryOptions) (sql : Text) : Response :=
  match o.query sql with
  | .error e => .failed e.message
  | .ok q =>
    if o.json then .done [q.json.pretty] []
    else
      .done [q.sql] (if q.generatesKeys then [] else ["Statement does not produce generated keys"])

/-- The answer to a command. The input takes the place of a statement that is given as a lone dash.
-/
def run (input : Text) (c : Command) : Response :=
  let source := fun (sql : Text) => if sql = ['-'] then input else sql
  match c with
  | version => .done ["fbdml 0.1.0".toList] []
  | help subcommand? => .done (helpLines subcommand?) []
  | tokens sql all => respondTokens (source sql) all
  | parse sql json => respondParse (source sql) json
  | query o => respondQuery o (source o.sql)

/-- The answer to the arguments: that of the command they mean, or the complaint that they mean
none. -/
def respond (env : Environment) (args : List Text) (input : Text) : Response :=
  match ofArguments? env false args with
  | some c => c.run input
  | none => .unusable

end Command

end GeneratedKeys
