import Footprint.Machine.Builtin
import Footprint.Machine.Control

set_option autoImplicit false

/-!
Running scripts. Whatever a computation needs to have done first it asks for: a value, something
done to a target, or statements run. What answers these requests is a parameter of the rules here,
and `Setting.calls` closes the circle; its argument bounds the depth of the requests and the number
of rounds of loops.
-/

namespace Footprint

/-- Requests for a value. -/
inductive Evaluation where
  | expr (e : Expr)
  | call (callee : Value) (args : List Value) (pos : Position)

/-- Requests for something done to a target. -/
inductive Placement where
  | assign (target : Expr) (v : Value)
  | delete (target : Expr)

/-- Requests for statements to be run. -/
inductive Execution where
  | block (body : List Stmt)
  | stmt (s : Stmt)
  /-- The rounds of a while loop, from a test on. -/
  | whileRounds (test : Expr) (body orelse : List Stmt) (pos : Position)
  /-- The rounds of a for loop over the items left. -/
  | forRounds (target : Expr) (items : Items) (body orelse : List Stmt) (pos : Position)
  /-- An except clause that has been found to catch an exception. -/
  | clause (f : Failure) (h : Handler)

/-- What answers requests. -/
structure Calls (σ : Type) where
  value : Evaluation → Action σ Value
  place : Placement → Action σ Unit
  run : Execution → Action σ Unit

namespace Calls

variable {σ : Type}

@[inline] def eval (c : Calls σ) (e : Expr) : Action σ Value := c.value (.expr e)

@[inline] def block (c : Calls σ) (body : List Stmt) : Action σ Unit := c.run (.block body)

end Calls

/-! ### What values and arguments come to -/

def Constant.value : Constant → Value
  | .none => .none
  | .bool b => .bool b
  | .int n => .int n
  | .float x => .float x
  | .str s => .str s

/-- The arguments of a call are as many as the function takes. -/
def checkArity (f : Function) (defaults given : Nat) : Except Fault Unit :=
  let total := f.head.params.length
  let required := total - defaults
  if total < given then .error (.tooManyArguments f.head.name total required given)
  else if given < required then
    .error (.missingArguments f.head.name
      (((f.head.params.take required).drop given).map (·.name)))
  else .ok ()

/-- The values of the parameters: the arguments, and the defaults of those without one. -/
def boundArguments (f : Function) (args defaults : List Value) : List (String × Value) :=
  let required := f.head.params.length - defaults.length
  (f.head.params.map (·.name)).zip (args ++ defaults.drop (args.length - required))

def callScope (closure : Option ScopeRef) (vars : List (String × Value)) : Edit ScopeRef := fun s =>
  let (r, s) := Store.newScope closure s
  (r, vars.foldl (fun s b => s.set r b.1 b.2) s)

/-- An except clause for the class `handler` catches an exception of class `kind`. -/
def catchesValue (kind : String) : Value → Except Fault Bool
  | .exceptionType name => .ok (catches kind name)
  | .classObject name _ true => .ok (kind == name)
  | .tuple _ classes => catchesAny kind classes
  | _ => .error .notCatchable
where
  /-- One of the classes catches it; the first one that does ends the search. -/
  catchesAny (kind : String) : List Value → Except Fault Bool
    | [] => .ok false
    | c :: cs => do if ← catchesValue kind c then return true else catchesAny kind cs

/-- A class with such bases is a class of exceptions. -/
def Value.isExceptionBase : Value → Bool
  | .exceptionType _ => true
  | .classObject _ _ isException => isException
  | _ => false

namespace Setting

variable {σ : Type}

open Footprint.Action

/-! ### Expressions -/

@[specialize] def evalAll (value : Evaluation → Action σ Value) :
    List Expr → Action σ (List Value)
  | [] => return []
  | e :: es => do
    let v ← value (.expr e)
    let vs ← evalAll value es
    return v :: vs

/-- The first operand that decides, or the last one. -/
@[specialize] def evalLogic (value : Evaluation → Action σ Value) (op : BoolOp) :
    List Expr → Action σ Value
  | [] => return .none
  | [e] => value (.expr e)
  | e :: es => do
    let v ← value (.expr e)
    let truth ← read (·.isTruthy v)
    if truth == (op == .or) then return v else evalLogic value op es

/-- The links of a comparison from the value `a` on, up to the first that does not hold. -/
@[specialize] def evalLinks (value : Evaluation → Action σ Value) (p : Position) :
    Value → List (CompareOp × Expr) → Action σ Value
  | _, [] => return .bool true
  | a, (op, e) :: links => do
    let b ← value (.expr e)
    if ← attemptAt p (·.compare op a b) then evalLinks value p b links
    else return .bool false

@[inline] def evalExpr (c : Calls σ) (e : Expr) : Action σ Value :=
  match e with
  | .const k _ => return k.value
  | .name id p => do
    let k ← frameKind
    readAt p (·.resolve k id)
  | .list items _ => do
    let vs ← evalAll c.value items
    edit (Store.newList vs.toArray)
  | .tuple items _ => do
    let vs ← evalAll c.value items
    edit (Store.newTuple vs)
  | .binary op left right p => do
    let a ← c.eval left
    let b ← c.eval right
    editAt p (·.binary op a b)
  | .unary op operand p => do
    let a ← c.eval operand
    readAt p (·.unary op a)
  | .logic op operands _ => evalLogic c.value op operands
  | .compare left links p => do
    let a ← c.eval left
    evalLinks c.value p a links
  | .call callee args p => do
    let f ← c.eval callee
    let vs ← evalAll c.value args
    c.value (.call f vs p)
  | .member object attr p => do
    let o ← c.eval object
    readAt p (·.getAttribute o attr)
  | .subscript object index p => do
    let o ← c.eval object
    let i ← c.eval index
    readAt p (·.subscript o i)
  | .choice test body orelse _ => do
    let t ← c.eval test
    if ← read (·.isTruthy t) then c.eval body else c.eval orelse

/-! ### Calls -/

/-- Calls a function: runs its body, with the parameters bound in a new scope. -/
@[inline] def callFunction (env : Setting σ) (r : FunctionRef) (args : List Value) (p : Position)
    (body : Function → Action σ Unit) : Action σ Value := do
  match ← read (·.function? r) with
  | none => raiseAt (.notCallable (Value.function r).typeName) p
  | some f =>
    lift p (checkArity f.function f.defaults.length args.length)
    let locals ← edit (callScope f.scope (boundArguments f.function args f.defaults))
    backAt p (env.inFrame (.ofFunction f.function locals) (body f.function))

@[inline] def callValue (env : Setting σ) (c : Calls σ) (callee : Value) (args : List Value)
    (p : Position) : Action σ Value :=
  match callee with
  | .function r => env.callFunction r args p fun f => c.block f.runBody
  | .builtin b => env.callBuiltin b args p
  | .method r m => editAt p (·.callMethod r m args)
  | .exceptionType kind => instantiate kind args
  | .classObject name _ true => instantiate name args
  | .classObject name _ false => raiseAt (.instanceOf name) p
  | v => raiseAt (.notCallable v.typeName) p

/-! ### Targets -/

/-- Assigns values to targets in pairs. -/
@[specialize] def assignAll (place : Placement → Action σ Unit) :
    List Expr → List Value → Action σ Unit
  | t :: ts, v :: vs => do
    place (.assign t v)
    assignAll place ts vs
  | _, _ => return ()

@[specialize] def assignEach (place : Placement → Action σ Unit) (v : Value) :
    List Expr → Action σ Unit
  | [] => return ()
  | t :: ts => do
    place (.assign t v)
    assignEach place v ts

@[inline] def assign (c : Calls σ) (target : Expr) (v : Value) : Action σ Unit :=
  match target with
  | .name id _ => store id v
  | .tuple targets p | .list targets p => do
    let items ← readAt p (·.iterate v)
    let vs ← lift p (Store.unpacked targets.length items)
    assignAll c.place targets vs
  | .subscript object index p => do
    let o ← c.eval object
    let i ← c.eval index
    editAt p (·.setItem o i v)
  | .member object attr p => do
    let o ← c.eval object
    editAt p fun _ => Store.setAttribute o attr v
  | e => raiseAt .cannotAssign e.pos

@[specialize] def deleteAll (place : Placement → Action σ Unit) : List Expr → Action σ Unit
  | [] => return ()
  | t :: ts => do
    place (.delete t)
    deleteAll place ts

@[inline] def delete (c : Calls σ) (target : Expr) : Action σ Unit :=
  match target with
  | .name id _ => unbind id
  | .tuple targets _ | .list targets _ => deleteAll c.place targets
  | .subscript object index p => do
    let o ← c.eval object
    let i ← c.eval index
    editAt p (·.deleteItem o i)
  | .member object attr p => do
    let o ← c.eval object
    editAt p (·.deleteAttribute o attr)
  | e => raiseAt .cannotDelete e.pos

/-- What an augmented assignment leaves in its target: a list is extended in place. -/
def augmented (env : Setting σ) (op : BinaryOp) (current operand : Value) (p : Position) :
    Action σ Value := do
  match op, current with
  | .add, .list r =>
    let items ← env.collect p operand
    editAt p (·.extend r items.toList)
    return current
  | _, _ => editAt p (·.binary op current operand)

/-- An augmented assignment; the parts of its target are evaluated once. -/
@[inline] def augment (env : Setting σ) (c : Calls σ) (target : Expr) (op : BinaryOp) (value : Expr)
    (q : Position) : Action σ Unit :=
  match target with
  | .name id p => do
    let k ← frameKind
    let current ← readAt p (·.resolve k id)
    let operand ← c.eval value
    let v ← env.augmented op current operand p
    store id v
  | .subscript object index p => do
    let o ← c.eval object
    let i ← c.eval index
    let current ← readAt p (·.subscript o i)
    let operand ← c.eval value
    let v ← env.augmented op current operand p
    editAt p (·.setItem o i v)
  | .member object attr p => do
    let o ← c.eval object
    let current ← readAt p (·.getAttribute o attr)
    let operand ← c.eval value
    let v ← env.augmented op current operand p
    editAt p fun _ => Store.setAttribute o attr v
  | _ => raiseAt .cannotAugment q

/-! ### Statements -/

@[specialize] def decorate (value : Evaluation → Action σ Value) (p : Position) :
    List Value → Value → Action σ Value
  | [], v => return v
  | d :: ds, v => do
    let v ← value (.call d [v] p)
    decorate value p ds v

@[inline] def defineFunction (c : Calls σ) (head : FunctionHead) (body : List Stmt) :
    Action σ Unit := do
  let decorators ← evalAll c.value head.decorators
  let defaults ← evalAll c.value (head.params.filterMap (·.default))
  let k ← frameKind
  let scope ← read (·.closure? k)
  let v ← edit (Store.newFunction ⟨⟨head, body⟩, defaults, scope⟩)
  let v ← decorate c.value head.pos decorators.reverse v
  store head.name v

/-- Makes the class that a definition describes; its body runs in a frame of its own. -/
@[inline] def defineClass (env : Setting σ) (c : Calls σ) (head : ClassHead) (body : List Stmt) :
    Action σ Unit := do
  let decorators ← evalAll c.value head.decorators
  let bases ← evalAll c.value head.bases
  let k ← frameKind
  let closure ← read (·.closure? k)
  let scope ← edit (Store.newScope closure)
  discard (env.inFrame (.ofClass head scope) (c.block body))
  setPos head.pos
  let made : Value := .classObject head.name scope (bases.any Value.isExceptionBase)
  let v ← decorate c.value head.pos decorators.reverse made
  store head.name v

/-- The exception that is raised with a value: a class makes one. -/
@[inline] def raised (c : Calls σ) (v : Value) (p : Position) : Action σ Value :=
  match v with
  | .exceptionType _ | .classObject _ _ true => c.value (.call v [] p)
  | v => pure v

@[inline] def raise (c : Calls σ) (exc : Option Expr) (p : Position) : Action σ Unit :=
  match exc with
  | none => reraise p
  | some e => do
    let v ← c.eval e
    match ← raised c v p with
    | .exception _ kind message => fail (.exception kind message p)
    | _ => raiseAt .notRaisable p

@[inline] def assert (c : Calls σ) (test : Expr) (message : Option Expr) (p : Position) :
    Action σ Unit := do
  let t ← c.eval test
  if ← read (·.isTruthy t) then return ()
  else
    match message with
    | none => raiseAt (.assertion "") p
    | some e =>
      let v ← c.eval e
      let text ← read (·.show? v)
      raiseAt (.assertion (← await text)) p

/-- An except clause catches an exception: one without a class catches all. -/
@[inline] def isCaught (value : Evaluation → Action σ Value) (f : Failure) (h : Handler) :
    Action σ Bool :=
  match h.kind with
  | none => return true
  | some e => do
    let k ← value (.expr e)
    lift h.pos (catchesValue (f.kind?.getD "") k)

/-- Looks for an except clause that catches an exception and runs it. Each clause that is tried is
told. -/
@[specialize] def handle (env : Setting σ) (value : Evaluation → Action σ Value)
    (run : Execution → Action σ Unit) (f : Failure) : List Handler → Action σ Unit
  | [] => fail f
  | h :: hs => do
    setPos h.pos
    env.markLine h.pos.line
    if ← isCaught value f h then run (.clause f h) else handle env value run f hs

/-- A try statement. Its else block runs when its body has ended without a jump, and is not covered
by its except clauses. -/
@[inline] def tryBlock (env : Setting σ) (c : Calls σ) (body : List Stmt) (handlers : List Handler)
    (orelse final : List Stmt) : Action σ Unit :=
  let covered := proceed (c.block body) (c.block orelse) fun f =>
    if f.isCatchable && !handlers.isEmpty then env.handle c.value c.run f handlers else fail f
  if final.isEmpty then covered else lastly covered (c.block final)

@[inline] def context (c : Calls σ) : List WithItem → Action σ Value
  | i :: _ => c.eval i.context
  | [] => return .none

/-- What a statement does once its line has been told. -/
@[inline] def perform (env : Setting σ) (c : Calls σ) (s : Stmt) : Action σ Unit :=
  match s with
  | .function head body => defineFunction c head body
  | .classDef head body => env.defineClass c head body
  | .ret none _ => giveBack .none
  | .ret (some e) _ => do giveBack (← c.eval e)
  | .delete targets _ => deleteAll c.place targets
  | .assign targets value _ => do
    let v ← c.eval value
    assignEach c.place v targets
  | .augment target op value p => env.augment c target op value p
  | .annotate _ _ none _ => return ()
  | .annotate target _ (some value) _ => do
    let v ← c.eval value
    c.place (.assign target v)
  | .forLoop target iter body orelse p => do
    let v ← c.eval iter
    let items ← readAt p (·.iterate v)
    c.run (.forRounds target items body orelse p)
  | .whileLoop test body orelse p => c.run (.whileRounds test body orelse p)
  | .cond test body orelse _ => do
    let t ← c.eval test
    if ← read (·.isTruthy t) then c.block body else c.block orelse
  | .withBlock items _ p => do
    let v ← context c items
    raiseAt (.noContext v.typeName) p
  | .tryBlock body handlers orelse final _ => env.tryBlock c body handlers orelse final
  | .raise exc p => raise c exc p
  | .assert test message p => assert c test message p
  | .importNames names p => raiseAt (.noModule ((names.head?.map (·.name)).getD "")) p
  | .importFrom source _ p =>
    if source.startsWith "." then raiseAt .relativeImport p else raiseAt (.noModule source) p
  | .globalDecl .. | .nonlocalDecl .. | .pass _ => return ()
  | .expr e _ => discard (c.eval e)
  | .brk _ => setJump .brk
  | .cont _ => setJump .cont

/-- Runs a statement: tells its lines and does what it says. -/
@[inline] def runStmt (env : Setting σ) (c : Calls σ) (s : Stmt) : Action σ Unit :=
  env.reporting do
    setPos s.pos
    env.markLines s.toldLines
    env.perform c s

@[specialize] def runBlock (run : Execution → Action σ Unit) : List Stmt → Action σ Unit
  | [] => return ()
  | s :: rest => proceed (run (.stmt s)) (runBlock run rest) fail

/-- The rounds of a while loop. Its line is told again before each test but the first. -/
@[inline] def whileRounds (env : Setting σ) (c : Calls σ) (test : Expr) (body orelse : List Stmt)
    (p : Position) : Action σ Unit := do
  let t ← c.eval test
  if ← read (·.isTruthy t) then
    round (c.block body) do
      setPos p
      env.markLine p.line
      c.run (.whileRounds test body orelse p)
  else c.block orelse

/-- The rounds of a for loop over the items left. Its line is told again before each item but the
first. -/
@[inline] def forRounds (env : Setting σ) (c : Calls σ) (target : Expr) (items : Items)
    (body orelse : List Stmt) (p : Position) : Action σ Unit :=
  match items.next? with
  | none => c.block orelse
  | some (v, items) => do
    c.place (.assign target v)
    round (c.block body) do
      setPos p
      env.markLine p.line
      c.run (.forRounds target items body orelse p)

/-! ### Answering requests -/

/-- Answers a request for a value, given what answers further ones. -/
@[inline] def evaluation (env : Setting σ) (c : Calls σ) : Evaluation → Action σ Value
  | .expr e => evalExpr c e
  | .call callee args p => env.callValue c callee args p

@[inline] def placement (c : Calls σ) : Placement → Action σ Unit
  | .assign target v => assign c target v
  | .delete target => delete c target

@[inline] def execution (env : Setting σ) (c : Calls σ) : Execution → Action σ Unit
  | .block body => runBlock c.run body
  | .stmt s => env.runStmt c s
  | .whileRounds test body orelse p => env.whileRounds c test body orelse p
  | .forRounds target items body orelse p => env.forRounds c target items body orelse p
  | .clause f h => clause f h.name (c.block h.body)

mutual

/-- Values, with requests nested at most so deep. -/
def evaluate (env : Setting σ) : Nat → Evaluation → Action σ Value
  | 0, _ => unfinished
  | n + 1, t => env.evaluation ⟨evaluate env n, place env n, execute env n⟩ t

/-- Things done to targets, with requests nested at most so deep. -/
def place (env : Setting σ) : Nat → Placement → Action σ Unit
  | 0, _ => unfinished
  | n + 1, t => placement ⟨evaluate env n, place env n, execute env n⟩ t

/-- Statements run, with requests nested at most so deep. -/
def execute (env : Setting σ) : Nat → Execution → Action σ Unit
  | 0, _ => unfinished
  | n + 1, t => env.execution ⟨evaluate env n, place env n, execute env n⟩ t

end

/-- What answers requests that are nested at most so deep. -/
def calls (env : Setting σ) (n : Nat) : Calls σ := ⟨env.evaluate n, env.place n, env.execute n⟩

end Setting

end Footprint
