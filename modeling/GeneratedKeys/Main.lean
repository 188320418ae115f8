import GeneratedKeys.Command.Run

/-!
# `GeneratedKeys.Main`: the program

Reads the arguments, the environment and, if a command asks for it, standard input, and
prints the answer of `Command.run`.
-/

set_option autoImplicit false

namespace GeneratedKeys

/-- The settings that the environment holds. A variable that is not set leaves the setting to its
default. -/
def Environment.read : IO Environment := do
  let text := fun (name : String) => do return (← IO.getEnv name).map String.toList
  return ⟨← text "FBDML_SERVER_VERSION", ← text "FBDML_DIALECT", ← text "FBDML_GENERATED_KEYS"⟩

/-- Prints an answer and gives its exit status. Messages go to the error stream, so the output can
be used as it is. -/
def Response.print (r : Response) : IO UInt32 := do
  (← IO.getStderr).putStr (String.ofList r.errors)
  (← IO.getStdout).putStr (String.ofList r.output)
  return .ofNat r.status

end GeneratedKeys

open GeneratedKeys in
/-- The program. -/
def main (args : List String) : IO UInt32 := do
  match Command.ofArguments? (← Environment.read) false (args.map String.toList) with
  | none => Response.unusable.print
  | some c =>
    let input ← if c.readsInput then (← IO.getStdin).readToEnd else pure ""
    (c.run input.toList).print
