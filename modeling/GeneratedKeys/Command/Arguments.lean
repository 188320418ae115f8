import GeneratedKeys.Keys.Request

/-!
# `GeneratedKeys.Command.Arguments`: reading the command line

A command line names a subcommand, a statement and options, the last two in any order.
An option that takes a value has it attached behind an equals sign or as the next
argument, which then may not start with a dash; only a lone dash may. Everything
behind `--` is a statement. Options that take a list may be given repeatedly, all
others once.

The arguments are read from left to right. The first that cannot be used, because its
name is unknown, its value is missing or no value of the option, or because it was given
before, makes the whole line unusable. The first that asks for the help ends the reading
with it, whatever stands behind. Only a line that was read to its end is looked at as a
whole: whether the statement is there, whether options exclude each other, and what the
environment says.

Three options of a request for keys fall back to the environment and then to a default.

* `readGiven`: the arguments behind a subcommand.
* `QueryOptions.request`: the request that the options of `rewrite` make.
* `Command.ofArguments?`: the command that the arguments mean.
-/

set_option autoImplicit false

namespace GeneratedKeys

/-! ### Options -/

/-- What an option takes: nothing, one value, or a list of them. -/
inductive OptionKind where
  | switch
  | single
  /-- Values with commas between, which several occurrences add up. -/
  | list
  deriving DecidableEq, Repr

/-- An option of a subcommand, with all that reading and help need to know of it. What the value
means is decided behind the reading, from `Given`. -/
structure CommandOption where
  /-- The name, without the dashes in front of it. -/
  name : String
  kind : OptionKind
  /-- Whether a text is a value of the option, or of its list. -/
  accepts : Text → Bool
  /-- What the help says about the option. -/
  summary : String

namespace CommandOption

/-- An option that takes no value. What it accepts does not matter then. -/
def switch (name summary : String) : CommandOption :=
  ⟨name, .switch, fun _ => true, summary⟩

/-- An option whose value may be any text, also the empty one. -/
def ofText (name : String) (kind : OptionKind) (summary : String) : CommandOption :=
  ⟨name, kind, fun _ => true, summary⟩

/-- Whether the option can be given with this value. Each part of a list is a value. -/
def takes (o : CommandOption) (value : Text) : Bool :=
  match o.kind with
  | .switch | .single => o.accepts value
  | .list => (value.splitOn ',').all o.accepts

end CommandOption

/-- The options of a subcommand. Both the reading and the help go by it. -/
abbrev OptionTable := List CommandOption

/-- An option of a name, if the subcommand has it. Names must be written in full. -/
def OptionTable.find? (table : OptionTable) (name : Text) : Option CommandOption :=
  List.find? (fun o => o.name.toList == name) table

/-! ### The arguments behind a subcommand -/

/-- Why arguments are not read to their end. Either answer is final: what stands behind is not
looked at. -/
inductive Halt where
  /-- An argument cannot be used. -/
  | unusable
  /-- The help is asked for. -/
  | help
  deriving DecidableEq, Repr

/-- What was given behind a subcommand. It is only collected here; what the options mean is said by
the command. -/
structure Given where
  statement? : Option Text
  /-- The options in order, switches with an empty value. -/
  options : List (String × Text)
  deriving DecidableEq, Repr

namespace Given

/-- Nothing was given yet. Reading the arguments starts from here. -/
def nothing : Given := ⟨none, []⟩

/-- Whether an option was given, with a value or without. -/
def has (g : Given) (name : String) : Bool :=
  g.options.any (·.1 == name)

/-- The values of an option, one for each occurrence and in their order. A switch has an empty text
for each. -/
def values (g : Given) (name : String) : List Text :=
  (g.options.filter (·.1 == name)).map (·.2)

/-- The parts of the values of a list option. Parts are separated by commas and not trimmed, and
occurrences add up. -/
def parts (g : Given) (name : String) : List Text :=
  (g.values name).flatMap (List.splitOn ',')

/-- The value of an option, or else that of the environment, or else the default. So what is written
on the command line always counts first. -/
def setting (g : Given) (name : String) (environment : Option Text) (default : String) : Text :=
  ((g.values name).head?.or environment).getD default.toList

/-- Adds the statement. A second one is refused, as only one is read in a run. -/
def addStatement (g : Given) (sql : Text) : Except Halt Given :=
  if g.statement?.isSome then .error .unusable else .ok { g with statement? := some sql }

/-- Adds an option. Only a list may be given again, and the value must be one of the option. -/
def addOption (g : Given) (o : CommandOption) (value : Text) : Except Halt Given :=
  if o.kind ≠ .list ∧ g.has o.name then .error .unusable
  else if o.takes value then .ok { g with options := g.options ++ [(o.name, value)] }
  else .error .unusable

end Given

/-- Whether an argument is an option rather than a value. A lone dash is none; it stands for
standard input. -/
def startsOption : Text → Bool
  | '-' :: _ :: _ => true
  | _ => false

/-- The name of a long option, and the value attached to it behind the first equals sign. Without an
equals sign nothing is attached, which is not the same as an empty value. -/
def longOption? : Text → Option (Text × Option Text)
  | '-' :: '-' :: body =>
    match body.dropWhile (· ≠ '=') with
    | [] => some (body, none)
    | _ :: value => some (body.takeWhile (· ≠ '='), some value)
  | _ => none

/-- What a group of short flags behind a subcommand leads to. The only one is that of the help, and
a group is read from its front. -/
def shortHalt : Text → Halt
  | '-' :: 'h' :: _ => .help
  | _ => .unusable

/-- Reads what follows a subcommand, from left to right. An option that takes a value takes the next
argument along, so a step may pass two of them. -/
def readGiven (table : OptionTable) : List Text → Given → Except Halt Given
  | [], g => .ok g
  | arg :: rest, g =>
    if arg = "--".toList then rest.foldlM Given.addStatement g
    else if arg = "--help".toList then .error .help
    else
      match longOption? arg with
      | some (name, attached) =>
        match table.find? name with
        | none => .error .unusable
        | some o =>
          match o.kind, attached, rest with
          | .switch, none, rest => (g.addOption o []).bind (readGiven table rest)
          | .switch, some _, _ => .error .unusable
          | _, some value, rest => (g.addOption o value).bind (readGiven table rest)
          | _, none, value :: rest =>
            -- An option where a value should stand is not taken for the value, not even `--help`.
            if startsOption value then .error .unusable
            else (g.addOption o value).bind (readGiven table rest)
          | _, none, [] => .error .unusable
      | none =>
        if startsOption arg then .error (shortHalt arg)
        else (g.addStatement arg).bind (readGiven table rest)

/-! ### Commands -/

/-- The settings that the environment may hold. They are looked at only for options that were not
given. -/
structure Environment where
  serverVersion? : Option Text
  dialect? : Option Text
  generatedKeys? : Option Text
  deriving DecidableEq, Repr

/-- What a request for generated keys was asked with, after all texts have been read as what they
stand for. -/
structure QueryOptions where
  sql : Text
  /-- The names of the columns to return. -/
  columns : List Text
  /-- The positions of the columns to return. -/
  indexes : List Nat
  /-- Whether all columns are to be returned. -/
  allColumns : Bool
  /-- The columns of the statement's table, if they were given. -/
  tableColumns : List Text
  version : ServerVersion
  dialect : Nat
  mode : Mode
  json : Bool
  deriving DecidableEq, Repr

/-- The request for keys: names if there are any, or else positions if there are any, or else all
columns if they are wanted. -/
def QueryOptions.request (o : QueryOptions) : Request :=
  if o.columns ≠ [] then .names o.columns
  else if o.indexes ≠ [] then .indexes o.indexes
  else if o.allColumns then .allColumns
  else .noKeys

/-- The subcommands. Each has a table of options, from which both its reading and its help are made.
-/
inductive Subcommand where
  | tokens
  | parse
  | rewrite
  /-- The help of the program, or of a subcommand that is named behind. -/
  | help
  deriving DecidableEq, Repr

/-- What the program was asked for. Arguments that ask for nothing of this are refused before
anything is run. -/
inductive Command where
  /-- The name and version of the program. -/
  | version
  /-- The help of a subcommand, or of the whole program. -/
  | help (subcommand? : Option Subcommand)
  /-- The tokens of a statement, hidden ones included if `all` is set. -/
  | tokens (sql : Text) (all : Bool)
  /-- The parts of a statement. -/
  | parse (sql : Text) (json : Bool)
  /-- The statement to execute for generated keys. -/
  | query (options : QueryOptions)
  deriving DecidableEq, Repr

/-- A position is a number of 64 bits. That positions count from 1 is checked by the builder, which
knows the table. -/
def position? (t : Text) : Option Nat :=
  Text.number? (Nat.pow 2 64) t

/-- The dialects are 1, 2 and 3. Other numbers are refused together with texts that are no number.
-/
def dialect? (t : Text) : Option Nat :=
  (Text.number? (Nat.pow 2 63) t).filter fun n => 1 ≤ n ∧ n ≤ 3

namespace Given

/-- Whether columns were chosen in more than one way, which makes the options unusable. -/
def choosesTwice (g : Given) : Bool :=
  1 < (["columns", "indexes", "all-columns"].filter g.has).length

/-- The options of a request for generated keys. An option that was not given falls back to the
environment only here, behind the reading, and a value of the environment that means nothing makes
the options unusable. -/
def queryOptions? (env : Environment) (g : Given) : Option QueryOptions := do
  let sql ← g.statement?
  if g.choosesTwice then none
  let indexes ← (g.parts "indexes").mapM position?
  let version ← ServerVersion.ofText? (g.setting "server-version" env.serverVersion? "4.0")
  let dialect ← GeneratedKeys.dialect? (g.setting "dialect" env.dialect? "3")
  return {
    sql := sql
    columns := g.parts "columns"
    indexes := indexes
    allColumns := g.has "all-columns"
    tableColumns := g.parts "table-columns"
    version := version
    dialect := dialect
    mode := Mode.ofText (g.setting "generated-keys" env.generatedKeys? "default")
    json := g.has "json" }

end Given

namespace Subcommand

/-- All subcommands, in the order of the help. -/
def all : List Subcommand := [tokens, parse, rewrite, help]

/-- The word that stands for a subcommand. It must be written in full. -/
def name : Subcommand → String
  | tokens => "tokens"
  | parse => "parse"
  | rewrite => "rewrite"
  | help => "help"

/-- The subcommand of a name, if there is one. The search goes through `all`, so a subcommand cannot
be missing from the help only. -/
def ofName? (name : Text) : Option Subcommand :=
  all.find? fun s => s.name.toList == name

/-- What the help says about a subcommand, in the help of the program and at the top of its own. -/
def summary : Subcommand → String
  | tokens => "List the tokens of a statement"
  | parse => "Show the table, columns, values and RETURNING columns of a statement"
  | rewrite => "Show the statement executed when generated keys are requested"
  | help => "Print this message or the help of the given subcommand(s)"

/-- The options of a subcommand, in the order of its help. The help itself has none. -/
def table : Subcommand → OptionTable
  | tokens => [.switch "all" "Include whitespace and comments"]
  | parse => [.switch "json" "Print the model and diagnostics as JSON"]
  | rewrite => [
      .ofText "columns" .list "Return the named columns (used as given, quote them if needed)",
      ⟨"indexes", .list, fun t => (position? t).isSome,
        "Return the columns at these 1-based positions"⟩,
      .switch "all-columns" "Return all columns of the table",
      .ofText "table-columns" .list "Columns of the statement's table in ordinal order",
      ⟨"server-version", .single, fun t => (ServerVersion.ofText? t).isSome,
        "Firebird server version"⟩,
      ⟨"dialect", .single, fun t => (GeneratedKeys.dialect? t).isSome,
        "SQL dialect of the connection"⟩,
      .ofText "generated-keys" .single
        "Generated keys mode: default, disabled, ignored or a list of query types",
      .switch "json" "Print the result as JSON"]
  | help => []

end Subcommand

namespace Command

/-- The command that a subcommand means with what was given behind it. A statement must be among it.
-/
def ofGiven? (env : Environment) (g : Given) : Subcommand → Option Command
  | .tokens => g.statement?.map fun sql => .tokens sql (g.has "all")
  | .parse => g.statement?.map fun sql => .parse sql (g.has "json")
  | .rewrite => (g.queryOptions? env).map .query
  | .help => none

/-- The command that a subcommand and the arguments behind it mean. Asking for the help ends the
reading at once, so what stands behind it is not looked at. -/
def ofSubcommand? (env : Environment) (s : Subcommand) (args : List Text) : Option Command :=
  if s = .help then
    match args with
    | [] => some (.help none)
    | [name] => (Subcommand.ofName? name).map fun topic => .help (some topic)
    | _ => none
  else
    match readGiven s.table args .nothing with
    | .ok g => ofGiven? env g s
    | .error .help => some (.help (some s))
    | .error .unusable => none

/-- What a group of short flags asks for. The first flag of the group that asks for the help or the
version decides. -/
inductive Flags where
  /-- Verbose output, which may be asked for once. -/
  | verbose
  | version
  | help
  | unusable
  deriving DecidableEq, Repr

/-- Reads a group of short flags from left to right; `verbose` tells whether verbose
output was asked for before. -/
def shortFlags (verbose : Bool) : Text → Flags
  | [] => if verbose then .verbose else .unusable
  | 'V' :: _ => .version
  | 'h' :: _ => .help
  | 'v' :: rest => if verbose then .unusable else shortFlags true rest
  | _ => .unusable

/-- The command that the arguments mean. `verbose` tells whether verbose output was
asked for before. It does not change the answer. -/
def ofArguments? (env : Environment) (verbose : Bool) : List Text → Option Command
  | [] => none
  | arg :: rest =>
    if arg = "--version".toList then some .version
    else if arg = "--help".toList then some (.help none)
    else if arg = "--verbose".toList then
      if verbose then none else ofArguments? env true rest
    else if startsOption arg then
      match shortFlags verbose (arg.drop 1) with
      | .verbose => ofArguments? env true rest
      | .version => some .version
      | .help => some (.help none)
      | .unusable => none
    else
      match Subcommand.ofName? arg with
      | some s => ofSubcommand? env s rest
      | none => none

end Command

end GeneratedKeys
