import GeneratedKeys.Statement.Rule
import GeneratedKeys.Statement.State

/-!
# `GeneratedKeys.Statement.Run`: reading a rule

`Rule.run` reads a rule at a place. Values are read by a function that is handed in,
so the recursion of `run` follows the rule alone; the nesting of values is bounded by
the module that ties the knot.

A repetition takes at least one token each time round, so the tokens ahead bound the
number of rounds.
-/

set_option autoImplicit false

namespace GeneratedKeys

/-- Reads with `step` as long as the next token passes `test`, at most `rounds` times. -/
def repeatWhile (test : TokenKind → Bool) (step : State → Outcome) : Nat → State → Outcome
  | 0, s => .ok s
  | rounds + 1, s =>
    if State.passes [test] s.after then (step s).andThen (repeatWhile test step rounds)
    else .ok s

namespace Rule

/-- Reads a rule at a place. `value power` reads a nested value. It is a parameter, because values
nest values: the recursion on the levels that are left is closed over it in `readValue`. -/
def run (value : Nat → State → Outcome) : Rule → State → Outcome
  | .empty, s => .ok s
  | .seq first second, s => (run value first s).andThen (run value second)
  | .expect kind, s => s.expect kind
  | .take, s => .ok s.take
  | .fail wanted, s => .stop (s.unexpected wanted) s
  | .branch tests yes no, s =>
    if State.passes tests s.after then run value yes s else run value no s
  | .foresee attempt yes no, s =>
    let o := run value attempt s.enter
    let back := s.leave o.state
    if o.isOk then run value yes back else run value no back
  | .repeatWhile test body, s =>
    GeneratedKeys.repeatWhile test (run value body) s.after.length s
  | .value power, s => value power s
  | .skip, s => .ok s.skip
  | .record part body, s =>
    (run value body s).andThen fun s' => .ok (s'.record part (s.rangeFrom s'))
  | .together body, s =>
    match run value body s with
    | .ok s' => .ok s'
    | .stop e s' => .stop e { s' with found := s.found }
  | .declare type, s => .ok (s.declare type)
  | .defaults, s => .ok s.noteDefaults
  | .finish, s => if s.atEnd then .ok s else .stop (s.unexpected "end of statement") s

end Rule

end GeneratedKeys
