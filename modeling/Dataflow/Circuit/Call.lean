import Dataflow.Circuit.Netlist

/-!
# Dataflow.Circuit.Call

What a netlist can be told, as data. A parser tells its netlist one call after the other, and the
list of them is the trace by which two ways of describing a circuit can be compared.

* `Call` — one call with its arguments;
* `Call.Reply` — the type of its answer;
* `Netlist.perform` — carries a call out.
-/

namespace Dataflow.Circuit

/-- One thing that a netlist is told. -/
inductive Call where
  | constant (kind : ConstantKind) (text : String)
  | applyOperator (op : Operator) (arguments : List Expr)
  | encapsulate (container : Container) (items : List Expr)
  | useSignal (name : String)
  | useBus (name : String)
  | declareSignal (name : String)
  | declareBus (name : String)
  | assign (targets : List Expr) (value : Expr)
  | defineEntity (e : Entity)
  | beginArchitecture (name entity : String)
  | endArchitecture
  | instantiate (entity : String) (inputs outputs : List Binding) (buses : List Expr)
deriving DecidableEq

/-- What a call is answered with: a node, the nodes of an instance's outputs, or nothing. -/
abbrev Call.Reply : Call → Type
  | assign .. | defineEntity .. | beginArchitecture .. | endArchitecture => Unit
  | instantiate .. => List Expr
  | _ => Expr

/-- Tells a netlist what the call says. -/
def Netlist.perform : (call : Call) → Netlist.Change call.Reply
  | .constant kind text => Netlist.constant kind text
  | .applyOperator op arguments => Netlist.applyOperator op arguments
  | .encapsulate container items => Netlist.encapsulate container items
  | .useSignal name => Netlist.useSignal name
  | .useBus name => Netlist.useBus name
  | .declareSignal name => Netlist.declareSignal name
  | .declareBus name => Netlist.declareBus name
  | .assign targets value => Netlist.assign targets value
  | .defineEntity e => Netlist.defineEntity e
  | .beginArchitecture name entity => Netlist.beginArchitecture name entity
  | .endArchitecture => Netlist.endArchitecture
  | .instantiate entity inputs outputs buses => Netlist.instantiate entity inputs outputs buses

end Dataflow.Circuit
