import Mend.Go.Parse
import Mend.Syntax.Tree
import Mend.Text.Quoted

/-! Go files as the syntax trees that fixes look at. -/
namespace Mend.Go

/-- A node together with the nodes around it, the nearest one first. -/
structure Cursor where
  node : Node
  around : List Node

namespace Cursor

def child (c : Cursor) (n : Node) : Cursor := ⟨n, c.node :: c.around⟩

def children (c : Cursor) : List Cursor := c.node.children.map c.child

def parent? (c : Cursor) : Option Cursor :=
  match c.around with
  | [] => none
  | n :: above => some ⟨n, above⟩

def ancestorsOf : List Node → List Cursor
  | [] => []
  | n :: above => ⟨n, above⟩ :: ancestorsOf above

def ancestors (c : Cursor) : List Cursor := ancestorsOf c.around

/-- Descend towards an offset: at most `fuel` levels. -/
def descend (offset : Nat) : Nat → Cursor → Cursor
  | 0, c => c
  | fuel + 1, c =>
    match c.node.children.find? (·.holds offset) with
    | some n => descend offset fuel (c.child n)
    | none => c

/-- Whether an identifier gives a name to something: in a declaration of constants, variables,
parameters or functions, or on the left of `:=` in a declaration or a range clause. -/
def isDefinition (c : Cursor) : Bool :=
  match c.around with
  | parent :: above =>
    match parent.kind with
    | .varSpec | .constSpec | .parameterDeclaration | .variadicParameterDeclaration
    | .functionDeclaration => c.node.role? = some .name
    | .expressionList =>
      parent.role? = some .left &&
        match above.head? with
        | some statement =>
          statement.kind = .shortVarDeclaration ||
            (statement.kind = .rangeClause &&
              statement.children.any (·.kind = .fixed [':', '=']))
        | none => false
    | _ => false
  | [] => false

def nodeKind (c : Cursor) : NodeKind :=
  match c.node.kind with
  | .sourceFile => .sourceFile
  | .identifier => if c.isDefinition then .definition else .reference
  | .packageIdentifier | .fieldIdentifier | .typeIdentifier => .name
  | .parameterDeclaration | .variadicParameterDeclaration => .parameterDeclaration
  | .functionDeclaration | .methodDeclaration => .functionDeclaration
  | .packageClause => .packageClause
  | .expressionSwitchStatement => .switchStatement
  | .expressionCase => .caseClause
  | .defaultCase => .defaultClause
  | .interpretedStringLiteral | .rawStringLiteral => .stringLiteral
  | .intLiteral | .floatLiteral | .imaginaryLiteral => .numberLiteral
  | .comment => .comment
  | _ => .other

/-- The declared name. A package clause has no part in the role of a name: its first named child
is taken. -/
def name? (c : Cursor) : Option Cursor :=
  (if c.node.kind = .packageClause then c.node.children.find? Node.isNamed
    else c.node.inRole? .name).map c.child

def value? (c : Cursor) : Option Cursor := (c.node.inRole? .value).map c.child

/-- A node's kind and place in words. -/
def describe (c : Cursor) : String :=
  let s := c.node.span
  "GoNode \x7b kind: " ++ Text.quoted c.node.kind.name ++ ", range: TextRange \x7b start: " ++
    toString s.start ++ ", end: " ++ toString s.stop ++ " \x7d \x7d"

end Cursor

namespace File

def rootCursor (f : File) : Cursor := ⟨f.root, []⟩

/-- The leaf at an offset, if the offset is not past the end of the text. A tree is no deeper than
its nodes are many, and so not than the descent that built it. -/
def leafAt? (f : File) (offset : Nat) : Option Cursor :=
  if offset ≤ f.chars.length then
    some (Cursor.descend offset ((f.chars.length + 1) * depthPerToken) f.rootCursor)
  else none

def tree (f : File) : Tree Cursor where
  leafAt? := f.leafAt?
  kind := Cursor.nodeKind
  span c := c.node.span
  text c := (f.chars.take c.node.span.stop).drop c.node.span.start
  ancestors := Cursor.ancestors
  children := Cursor.children
  name? := Cursor.name?
  condition? := Cursor.value?

end File
end Mend.Go
