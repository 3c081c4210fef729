import UtilityCss.Text.Basic

/-!
How much is logged, from errors alone to everything.
-/
namespace UtilityCss

inductive Level where
  | error
  | warn
  | info
  | debug
  | trace
  deriving DecidableEq, Repr

namespace Level

def all : List Level :=
  [error, warn, info, debug, trace]

def name : Level → String
  | error => "error"
  | warn => "warn"
  | info => "info"
  | debug => "debug"
  | trace => "trace"

def rank : Level → Nat
  | error => 0
  | warn => 1
  | info => 2
  | debug => 3
  | trace => 4

/-- The level so many steps further, or the last one. -/
def raised (level : Level) (steps : Nat) : Level :=
  all.getD (level.rank + steps) trace

def isLouderThan (level other : Level) : Bool :=
  other.rank < level.rank

end Level

end UtilityCss
