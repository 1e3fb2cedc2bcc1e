import UiConformance.Element.Tree

/-!
# Conditions

Expressions over an element that say where a rule applies. `a / b` holds of an element of which `a`
holds and some direct child of which satisfies `b`. A condition that reduces to a constant has a
value without any element; every other one asks for an element and fails without it.
-/

namespace UiConformance

inductive Condition
  | always
  | never
  | controlTypeIs (t : ControlType)
  | patternIs (p : PatternId)
  | and (l r : Condition)
  | or (l r : Condition)
  | not (c : Condition)
  /-- The first part holds, and the second holds of a direct child. -/
  | withChild (parent child : Condition)
  deriving DecidableEq, Repr

namespace Condition

instance : AndOp Condition := ⟨and⟩
instance : OrOp Condition := ⟨or⟩
instance : Div Condition := ⟨withChild⟩
instance : Complement Condition := ⟨not⟩
instance : Coe ControlType Condition := ⟨controlTypeIs⟩
instance : Coe PatternId Condition := ⟨patternIs⟩

/-- Any of the control types, grouped to the left; never, if there is none. -/
def anyControlType : List ControlType → Condition
  | [] => never
  | t :: ts => ts.foldl (fun c t => c ||| controlTypeIs t) (controlTypeIs t)

/-- The value of a condition that depends on no element. The second operand is looked at only where
the first leaves the value open. -/
def constant? : Condition → Option Bool
  | always => some true
  | never => some false
  | controlTypeIs _ => none
  | patternIs _ => none
  | not c => c.constant?.map (!·)
  | and l r => l.constant?.bind fun v => if v then r.constant? else some false
  | or l r => l.constant?.bind fun v => if v then some true else r.constant?
  | withChild p c => p.constant?.bind fun v => if v then c.constant? else some false

/-! ## Text -/

/-- How tightly the outermost operator binds. -/
def precedence : Condition → Nat
  | or _ _ => 1
  | and _ _ => 2
  | withChild _ _ => 3
  | _ => 4

def parenthesized (needed : Bool) (s : String) : String :=
  if needed then "(" ++ s ++ ")" else s

/-- Operators associate to the left, so a right operand of the same precedence is grouped. -/
def text : Condition → String
  | always => "True"
  | never => "False"
  | controlTypeIs t => t.text
  | patternIs p => "PatternIs(" ++ p.text ++ ")"
  | and l r => parenthesized (l.precedence < 2) l.text ++ " & " ++ parenthesized (r.precedence < 3) r.text
  | or l r => parenthesized (l.precedence < 1) l.text ++ " | " ++ parenthesized (r.precedence < 2) r.text
  | not c => "!" ++ parenthesized (c.precedence < 4) c.text
  | withChild p c =>
    parenthesized (p.precedence < 3) p.text ++ " / " ++ parenthesized (c.precedence < 4) c.text

end Condition

/-- The part of a condition that could not be evaluated without an element. -/
structure MissingElement where
  part : Condition
  deriving DecidableEq, Repr

def MissingElement.message (e : MissingElement) : String :=
  s!"Condition '{e.part.text}' requires an element"

namespace Condition

/-- The element, or the complaint of a condition that needs one. -/
def require (c : Condition) : Option Element → Except MissingElement Element
  | some e => .ok e
  | none => .error ⟨c⟩

/-- Some member passes the test; the first failure of the test before that is the outcome. -/
def firstPassing {α ε : Type} (test : α → Except ε Bool) : List α → Except ε Bool
  | [] => .ok false
  | a :: as =>
    match test a with
    | .error e => .error e
    | .ok true => .ok true
    | .ok false => firstPassing test as

def evaluate : Condition → Option Element → Except MissingElement Bool
  | always, _ => .ok true
  | never, _ => .ok false
  | controlTypeIs t, e => (require (controlTypeIs t) e).map fun e => e.controlType == t
  | patternIs p, e => (require (patternIs p) e).map fun e => e.hasPattern p
  | and l r, e =>
    match l.evaluate e with
    | .error m => .error m
    | .ok true => r.evaluate e
    | .ok false => .ok false
  | or l r, e =>
    match l.evaluate e with
    | .error m => .error m
    | .ok true => .ok true
    | .ok false => r.evaluate e
  | not c, e => (c.evaluate e).map (!·)
  | withChild p c, e =>
    match p.constant?, c.constant? with
    | some v, some w => .ok (v && w)
    | _, _ =>
      match p.evaluate e with
      | .error m => .error m
      | .ok false => .ok false
      | .ok true =>
        match require (withChild p c) e with
        | .error m => .error m
        | .ok e => firstPassing (fun k => c.evaluate (some k)) e.children

/-- A condition that could not be evaluated counts as not met. -/
def appliesTo (c : Condition) (e : Element) : Bool :=
  match c.evaluate (some e) with
  | .ok v => v
  | .error _ => false

/-- What a condition says of an element. A constant child condition makes `a / b` a constant, so
that no child is needed then. -/
def holds : Condition → Element → Bool
  | always, _ => true
  | never, _ => false
  | controlTypeIs t, e => e.controlType == t
  | patternIs p, e => e.hasPattern p
  | and l r, e => l.holds e && r.holds e
  | or l r, e => l.holds e || r.holds e
  | not c, e => !c.holds e
  | withChild p c, e =>
    match p.constant?, c.constant? with
    | some v, some w => v && w
    | _, _ => p.holds e && e.children.any fun k => c.holds k

end Condition

end UiConformance
