/-
  FlowCheck.Analysis.Counting — evaluating integers, a small analysis with values of unbounded height.

  A value is one number, or any number; a larger number stands for every smaller one. Numbers grow
  by joins without ever reaching the top, so a loop that counts ends only because its head widens:
  a number that has grown becomes any number.

  Sums are taken modulo the word size. A comparison for equality teaches the place that its left
  operand reads, where it holds, the value on the right.
-/

import FlowCheck.Analysis.Transfer

namespace FlowCheck

inductive Count where
  | bottom
  | at (n : UInt32)
  | top
  deriving DecidableEq, Repr, Inhabited

namespace Count

def join : Count → Count → Count
  | .bottom, c | c, .bottom => c
  | .at a, .at b => .at (max a b)
  | _, _ => .top

/-- A number that grows is given up. -/
def widen (a b : Count) : Count :=
  match a, b with
  | .at m, .at n => if m < n then .top else join a b
  | _, _ => join a b

instance : Domain Count where
  bottom := .bottom
  top := .top
  join := join
  below a b := join a b = b
  widen := widen

/-- A sum that is too large wraps around, as words do where nothing checks them for overflow. A build that
checks them would stop instead; that outcome is left out. -/
def add : Count → Count → Count
  | .bottom, _ | _, .bottom => .bottom
  | .at a, .at b => .at (a + b)
  | _, _ => .top

end Count

namespace Counting

/-- The store in which the place read by `n`, if it is a read, has a value. -/
def learn (sit : Situation Count) (n : NodeId) (value : Count) : Store Count :=
  match (sit.graph.node? n).map Node.operation with
  | some (.read p) => sit.store.set p value
  | _ => sit.store

def transfer : Transfer Count String := fun node sit =>
  let store := sit.store
  match node.operation with
  | .literal (.int v) => { outflow := .same store, value := some (.at v.toInt.toInt32.toUInt32) }
  | .read p => { outflow := .same store, value := some (store.valueOf p) }
  | .assign target value => { outflow := .same (store.set target (sit.valueOf value)) }
  | .binary .add lhs rhs =>
    { outflow := .same store, value := some (Count.add (sit.valueOf lhs) (sit.valueOf rhs)), facts := ["add"] }
  | .binary .eq lhs rhs => { outflow := .split (learn sit lhs (sit.valueOf rhs)) store }
  | .call .. =>
    let store := store.forgetFields
    { outflow := .same store, thrown := some store, value := some .top }
  | .allocate .. => { outflow := .same (store.set (.local "x") (.at 5)), thrown := some store }
  | .raise _ => { outflow := .same .unreachable, thrown := some store }
  | .handler parameter _ => { outflow := .same (store.set (.local parameter) (.at 0)) }
  | _ => { outflow := .same store }

/-- The same, with a count of how often it was applied. -/
def client : Client Count String Nat := fun applications node sit => (transfer node sit, applications + 1)

end Counting

end FlowCheck
