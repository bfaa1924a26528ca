import Dataflow.Circuit.Entity

/-!
# Dataflow.Circuit.BuildError

Why a netlist refuses what it is told (`Dataflow.Circuit.Netlist`), and the words for each cause.
-/

namespace Dataflow.Circuit

open Text

/-- The causes for which a netlist refuses a call. -/
inductive BuildError where
  /-- A bus is named where a signal is needed. -/
  | busNotSignal (name : String)
  | unknownBus (name : String)
  /-- A bus cannot be declared as a signal. -/
  | declaredAsBus (name : String)
  /-- A signal cannot be declared as a bus. -/
  | declaredAsSignal (name : String)
  /-- Only signals can be driven. -/
  | notAssignable (node : Expr)
  /-- An entity has been given more or fewer operands than its inputs. -/
  | inputCount (entity : String) (declared given : Nat)
  | entityDefined (label : String)
  /-- An architecture cannot begin inside another one. -/
  | nestedArchitecture (name outer : String)
  | architectureOfUnknown (name entity : String)
  | architectureDefined (name : String)
  | noOpenArchitecture
  | instanceOfUnknown (entity : String)
  /-- A binding names a pin that the entity has not. -/
  | noPin (entity : String) (side : Side) (pin : String)
  /-- More nodes are bound by place than there are pins. -/
  | pinCount (entity : String) (declared : Nat) (side : Side) (given : Nat)
  | pinTwice (side : Side) (pin entity : String)
  | busCount (entity : String) (declared given : Nat)
  /-- A cause outside the netlist, in its own words. -/
  | reported (message : String)
deriving DecidableEq

namespace BuildError

def message : BuildError → String
  | busNotSignal name => quoteString name ++ " is a bus, not a signal"
  | unknownBus name => "no bus named " ++ quoteString name
  | declaredAsBus name => quoteString name ++ " is already declared as a bus"
  | declaredAsSignal name => quoteString name ++ " is already declared as a signal"
  | notAssignable node => "cannot assign to " ++ node.text
  | inputCount entity declared given =>
    "entity " ++ quoteString entity ++ " takes " ++ toString declared ++
      " input(s), applied to " ++ toString given
  | entityDefined label => "entity " ++ quoteString label ++ " is already defined"
  | nestedArchitecture name outer =>
    "architecture " ++ quoteString name ++ " cannot be nested in " ++ quoteString outer
  | architectureOfUnknown name entity =>
    "architecture " ++ quoteString name ++ " implements unknown entity " ++ quoteString entity
  | architectureDefined name => "architecture " ++ quoteString name ++ " is already defined"
  | noOpenArchitecture => "no architecture is open"
  | instanceOfUnknown entity => "cannot instantiate unknown entity " ++ quoteString entity
  | noPin entity side pin =>
    "entity " ++ quoteString entity ++ " has no " ++ side.name ++ " port " ++ quoteString pin
  | pinCount entity declared side given =>
    "entity " ++ quoteString entity ++ " takes " ++ toString declared ++ " " ++ side.name ++
      " port(s), " ++ toString given ++ " bound"
  | pinTwice side pin entity =>
    side.name ++ " port " ++ quoteString pin ++ " of " ++ quoteString entity ++ " bound twice"
  | busCount entity declared given =>
    "entity " ++ quoteString entity ++ " takes " ++ toString declared ++ " bus(es), " ++
      toString given ++ " bound"
  | reported message => message

end BuildError

end Dataflow.Circuit
