import Mathlib.Algebra.GroupWithZero.Nat
import Mathlib.Data.List.Basic
import SyncBack.Domain.Entities

/-!
# The check of the directions of imports

`check` goes through the files of a package and reports the imports of a checked layer that lead
into a forbidden one. `_imports` walks through the statements of a file: into the bodies of
functions, classes, loops, conditions and so on, whose statements are direct children of a node.

`PyStmt` has the forms of the statements of Python with their blocks of statements and, of the
rest, what the check reads.

Source: `scripts/check_layer_imports.py`.
-/

namespace SyncBack

/-- `ast.Import` and `ast.ImportFrom`, with their place in the file. The names are those of the
aliases; what they are bound to is not read. -/
inductive ImportStmt where
  | import_ (lineno colOffset : ℕ) (names : List Text)
  | importFrom (lineno colOffset : ℕ) (module : Option Text) (names : List Text) (level : ℕ)
  deriving DecidableEq

def ImportStmt.lineno : ImportStmt → ℕ
  | .import_ lineno _ _ => lineno
  | .importFrom lineno _ _ _ _ => lineno

/-- The test of an `if`, as far as it is looked at. -/
inductive TestExpr where
  | name (id : Text)
  | attribute (attr : Text)
  | other
  deriving DecidableEq

/-- The statements with one body. -/
inductive BodyKind where
  | functionDef
  | asyncFunctionDef
  | classDef
  | with_
  | asyncWith
  deriving DecidableEq

/-- The statements with a body and an `else`. -/
inductive LoopKind where
  | for_
  | asyncFor
  | while_
  deriving DecidableEq

/-- The statements of Python. -/
inductive PyStmt where
  | import_ (stmt : ImportStmt)
  | block (kind : BodyKind) (body : List PyStmt)
  | loop (kind : LoopKind) (body orelse : List PyStmt)
  | if_ (test : TestExpr) (body orelse : List PyStmt)
  /-- `Try` and `TryStar`; the handlers are nodes of their own. -/
  | try_ (star : Bool) (body : List PyStmt) (handlers : List (List PyStmt))
      (orelse finalbody : List PyStmt)
  /-- `Match`; the cases are nodes of their own. -/
  | match_ (cases : List (List PyStmt))
  /-- A statement without a block: an assignment, `return`, `pass`, … -/
  | simple

/-- A file of the package: its path, the parts of the path from the package on, without the
suffix, and its statements. -/
structure SourceFile where
  path : Text
  parts : List Text
  body : List PyStmt

namespace LayerImports

/-- Source: `FORBIDDEN`. -/
def forbidden : List (Text × List Text) :=
  [("app.domain".toList,
      ["app.api".toList, "app.core".toList, "app.infrastructure".toList, "app.workers".toList]),
    ("app.api".toList, ["app.workers".toList]),
    ("app.core".toList, ["app.workers".toList])]

/-- `".".join(parts)`. -/
def dotted (parts : List Text) : Text := ['.'].intercalate parts

/-- Source: `_module_name`. -/
def moduleName (parts : List Text) : Text :=
  dotted (if parts.getLast? = some "__init__".toList then parts.dropLast else parts)

/-- Source: `_is_type_checking_block`, of the test of an `if`. -/
def isTypeCheckingBlock : TestExpr → Bool
  | .name id => id = "TYPE_CHECKING".toList
  | .attribute attr => attr = "TYPE_CHECKING".toList
  | .other => false

/-- The direct children of a node that are statements: a handler and a `case` are none.
Source: `_child_statements`. -/
def childStatements : PyStmt → List PyStmt
  | .import_ _ => []
  | .block _ body => body
  | .loop _ body orelse => body ++ orelse
  | .if_ _ body orelse => body ++ orelse
  | .try_ _ body _ orelse finalbody => body ++ orelse ++ finalbody
  | .match_ _ => []
  | .simple => []

/-- An entry of `_imports`; its line is that of the statement. -/
structure Found where
  imported : Text
  stmt : ImportStmt
  typeChecking : Bool
  deriving DecidableEq

/-- What the statement itself adds to the entries. -/
def foundAt (typeChecking : Bool) (stmt : ImportStmt) : List Found :=
  match stmt with
  | .import_ _ _ names => names.map fun name => ⟨name, stmt, typeChecking⟩
  | .importFrom _ _ (some module) _ _ => if module = [] then [] else [⟨module, stmt, typeChecking⟩]
  | .importFrom _ _ none _ _ => []

mutual

/-- The loop of `visit` inside `_imports`. -/
def visit (typeChecking : Bool) : List PyStmt → List Found
  | [] => []
  | node :: nodes => visitNode typeChecking node ++ visit typeChecking nodes

/-- The body of the loop; all but the first two branches visit the child statements. -/
def visitNode (typeChecking : Bool) : PyStmt → List Found
  | .import_ stmt => foundAt typeChecking stmt
  | .if_ test body orelse =>
      if isTypeCheckingBlock test then visit true body ++ visit typeChecking orelse
      else visit typeChecking body ++ visit typeChecking orelse
  | .block _ body => visit typeChecking body
  | .loop _ body orelse => visit typeChecking body ++ visit typeChecking orelse
  | .try_ _ body _ orelse finalbody =>
      visit typeChecking body ++ visit typeChecking orelse ++ visit typeChecking finalbody
  | .match_ _ => []
  | .simple => []

end

/-- Source: `_imports`. -/
def imports (body : List PyStmt) : List Found := visit false body

/-- `module` is `pre` or a module inside it. Source: `_matches`. -/
def matchesModule (module pre : Text) : Bool :=
  module = pre || (pre ++ ['.']).isPrefixOf module

/-- The modules that the layers of a module must not import. -/
def forbiddenFor (module : Text) : List Text :=
  (forbidden.filter fun rule => matchesModule module rule.1).flatMap Prod.snd

/-- A reported import. -/
structure Violation where
  path : Text
  stmt : ImportStmt
  module : Text
  imported : Text
  deriving DecidableEq

/-- The text of the report. -/
def Violation.message (v : Violation) : String :=
  String.ofList v.path ++ ":" ++ toString v.stmt.lineno ++ ": " ++ String.ofList v.module ++
    " импортирует " ++ String.ofList v.imported

/-- One file: the violations, and how many imports are for type checking only. -/
def checkFile (file : SourceFile) : List Violation × ℕ :=
  let module := moduleName file.parts
  let targets := forbiddenFor module
  if targets = [] then ([], 0)
  else
    let found := (imports file.body).filter fun entry => targets.any (matchesModule entry.imported)
    ((found.filter fun entry => !entry.typeChecking).map fun entry =>
        ⟨file.path, entry.stmt, module, entry.imported⟩,
      found.countP Found.typeChecking)

/-- Source: `check`, of the files in the order of their paths. -/
def check (files : List SourceFile) : List Violation × ℕ :=
  ((files.map checkFile).flatMap Prod.fst, ((files.map checkFile).map Prod.snd).sum)

/-! ## The walk -/

/-- Statements are visited one after another. -/
theorem visit_append (typeChecking : Bool) (nodes nodes' : List PyStmt) :
    visit typeChecking (nodes ++ nodes') = visit typeChecking nodes ++ visit typeChecking nodes' := by
  induction nodes with
  | nil => simp [visit]
  | cons node nodes ih => rw [List.cons_append, visit, visit, ih, List.append_assoc]

/-- All statements but imports and the blocks for type checking are left to their children. -/
theorem visitNode_eq_visit_childStatements {typeChecking : Bool} : ∀ (node : PyStmt),
    (∀ stmt, node ≠ .import_ stmt) →
    (∀ test body orelse, node = .if_ test body orelse → isTypeCheckingBlock test = false) →
      visitNode typeChecking node = visit typeChecking (childStatements node)
  | .import_ stmt, h, _ => absurd rfl (h stmt)
  | .if_ test body orelse, _, h => by
      have htest := h test body orelse rfl
      simp [visitNode, childStatements, htest, visit_append]
  | .block _ _, _, _ => by simp [visitNode, childStatements]
  | .loop _ _ _, _, _ => by simp [visitNode, childStatements, visit_append]
  | .try_ _ _ _ _ _, _, _ => by simp [visitNode, childStatements, visit_append]
  | .match_ _, _, _ => by simp [visitNode, childStatements, visit]
  | .simple, _, _ => by simp [visitNode, childStatements, visit]

end LayerImports

end SyncBack
