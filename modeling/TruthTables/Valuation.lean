import TruthTables.Assignment.Basic
import TruthTables.Expr.Basic

namespace TruthTables

-- The value of a sub-expression. A truth value is 0 or 1; a constant stands for itself.
inductive TruthValue where
  | known (value : Int)
  | symbolic (text : String)
  deriving DecidableEq, Repr

namespace TruthValue

def ofBit (bit : Bool) : TruthValue := known (bitValue bit)

def bit? : TruthValue → Option Bool
  | known value => some (value != 0)
  | symbolic _ => none

def isKnown (value : TruthValue) : Bool := value.bit?.isSome

def cell : TruthValue → Value
  | known value => .int value
  | symbolic text => .text text

def shown : TruthValue → String
  | known value => toString value
  | symbolic text => text

def orText (bit : Option Bool) (text : String) : TruthValue :=
  match bit with
  | some bit => ofBit bit
  | none => symbolic text

end TruthValue

structure Valuation where
  bindings : Assignment
  namesOnly : Bool
  entries : Entries TruthValue
  deriving DecidableEq, Repr

namespace Valuation

def start (bindings : Assignment) (namesOnly : Bool) : Valuation := ⟨bindings, namesOnly, []⟩

def isComplete (v : Valuation) : Bool := v.entries.all fun (_, value) => value.isKnown

def ofName (v : Valuation) (name : String) : TruthValue :=
  match v.bindings.get? name with
  | some bit => .ofBit bit
  | none => .symbolic name

def enterName (v : Valuation) (name : String) : TruthValue × Valuation :=
  let value := v.ofName name
  (value, { v with entries := v.entries.set name value })

def enter (v : Valuation) (text : String) (value : TruthValue) : TruthValue × Valuation :=
  (value, if v.namesOnly then v else { v with entries := v.entries.set text value })

end Valuation

abbrev Visit := Valuation → Except Unfinished TruthValue × Valuation

namespace Expr

def consult (e : Expr) (visit : Visit) : Visit := fun v =>
  match e.text? with
  | .error unfinished => (.error unfinished, v)
  | .ok text =>
    match v.entries.get? text with
    | some value => (.ok value, v)
    | none => visit v

-- Works the expression out anew, although its operands may be looked up.
def visit : Expr → Visit
  | atom name, v =>
    let (value, v) := v.enterName name
    (.ok value, v)
  | const value, v => (.ok (.known value), v)
  | not operand, v =>
    match operand.consult operand.visit v with
    | (.error unfinished, v) => (.error unfinished, v)
    | (.ok value, v) =>
      let text := (not operand).text
      let (value, v) := v.enter text (.orText (value.bit?.map Bool.not) text)
      (.ok value, v)
  | binary c left right, v =>
    match left.consult left.visit v with
    | (.error unfinished, v) => (.error unfinished, v)
    | (.ok first, v) =>
      match right.consult right.visit v with
      | (.error unfinished, v) => (.error unfinished, v)
      | (.ok second, v) =>
        let text := (binary c left right).text
        let (value, v) := v.enter text (.orText (c.solve first.bit? second.bit?) text)
        (.ok value, v)
  | pair _ _, v => (.error {}, v)
  | hole, v => (.error {}, v)

end Expr

structure Evaluation where
  entries : Entries TruthValue
  result : TruthValue
  deriving DecidableEq, Repr

def Expr.evaluate (root : Expr) (bindings : Assignment) (namesOnly : Bool) :
    Except Unfinished Evaluation :=
  match root.consult root.visit (.start bindings namesOnly) with
  | (.error unfinished, _) => .error unfinished
  | (.ok result, v) => .ok ⟨v.entries, result⟩

end TruthTables
