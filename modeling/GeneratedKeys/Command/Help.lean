import GeneratedKeys.Command.Arguments

/-!
# `GeneratedKeys.Command.Help`: the help of the program

The help tells what the program or a subcommand does, how it is called, and what can be given
to it. The options are those of the table that the arguments are read with, so the help names
what the reader knows.
-/

set_option autoImplicit false

namespace GeneratedKeys

/-- How an option is written, with a name for the value that it takes. -/
def CommandOption.usage (o : CommandOption) : Text :=
  let written := "    --".toList ++ o.name.toList
  match o.kind with
  | .switch => written
  | .single | .list =>
    let value := o.name.toList.map fun c => if c = '-' then '_' else c.toUpper
    written ++ " <".toList ++ value ++ ['>']

/-- A part of the help under a heading: an empty line, the heading, and rows of two columns, the
second of them aligned behind the longest entry of the first. -/
def helpSection (heading : String) (rows : List (Text × String)) : List Text :=
  let width := (rows.map fun row => row.1.length).foldl max 0
  [] :: heading.toList :: rows.map fun row =>
    "  ".toList ++ row.1.rightpad width ' ' ++ "  ".toList ++ row.2.toList

/-- The row of the flag that asks for the help, which every subcommand has besides its own options.
-/
def helpFlag : Text × String :=
  ("-h, --help".toList, "Print help")

namespace Subcommand

/-- The help of a subcommand: what it is for, how it is called, and its options from the table that
the reading goes by. -/
def helpLines (s : Subcommand) : List Text :=
  if s = .help then
    [s.summary.toList, [], "Usage: fbdml help [COMMAND]...".toList]
      ++ helpSection "Arguments:" [("[COMMAND]...".toList, "Print help for the subcommand(s)")]
  else
    [s.summary.toList, [], "Usage: fbdml ".toList ++ s.name.toList ++ " [OPTIONS] <SQL>".toList]
      ++ helpSection "Arguments:"
        [("<SQL>".toList, "Statement text, or `-` to read from stdin")]
      ++ helpSection "Options:" (s.table.map (fun o => (o.usage, o.summary)) ++ [helpFlag])

end Subcommand

/-- The help of the whole program, with one row for each subcommand. -/
def programHelp : List Text :=
  [("Command-line tool to inspect Firebird DML statements "
      ++ "and rewrite them for generated keys").toList,
    [], "Usage: fbdml [OPTIONS] <COMMAND>".toList]
    ++ helpSection "Commands:" (Subcommand.all.map fun s => (s.name.toList, s.summary))
    ++ helpSection "Options:"
      [("-v, --verbose".toList, "Enable verbose output"), helpFlag,
        ("-V, --version".toList, "Print version")]

/-- The help that was asked for: that of a subcommand if one is named, and otherwise that of the
program. -/
def Command.helpLines (subcommand? : Option Subcommand) : List Text :=
  match subcommand? with
  | some s => s.helpLines
  | none => programHelp

end GeneratedKeys
