import Footprint.Store.Arithmetic
import Footprint.Value.Items

set_option autoImplicit false

/-!
Parts of values: items by index, attributes by name, and the values an iteration goes through.
-/

namespace Footprint

/-- The place that an index names in a sequence of length `n`; a negative one counts from the end.
The arithmetic is that of 64 bits. -/
def place (index : Value) (n : Nat) (on : Indexed) : Except Fault Nat :=
  match index.asInt? with
  | none => .error (.indexType on index.typeName)
  | some raw =>
    let size := Int64.ofNat n
    let position := if raw < 0 then raw + size else raw
    if 0 ≤ position ∧ position < size then .ok position.toInt.toNat else .error (.indexRange on)

namespace Store

def subscript (s : Store) (object index : Value) : Except Fault Value :=
  match object with
  | .list r => do
    let items := s.items r
    let i ← place index items.size .list
    return items.getD i .none
  | .tuple _ items => do
    let i ← place index items.length .tuple
    return items.getD i .none
  | .str t => do
    let cs := t.toList
    let i ← place index cs.length .string
    return .str (String.ofList (cs[i]?.toList))
  | .range r => do
    let i ← place index r.length .range
    return .int (r.item i)
  | v => .error (.notSubscriptable v.typeName)

def setItem (s : Store) (object index value : Value) : Except Fault (Edit Unit) :=
  match object with
  | .list r => do
    let i ← place index (s.size r) .list
    return .update (·.modifyList r (·.setIfInBounds i value))
  | v => .error (.noItemAssignment v.typeName)

def deleteItem (s : Store) (object index : Value) : Except Fault (Edit Unit) :=
  match object with
  | .list r => do
    let i ← place index (s.size r) .list
    return .update (·.modifyList r (·.eraseIdxIfInBounds i))
  | v => .error (.noItemDeletion v.typeName)

/-- The attribute of a value: of a class any name it binds, of a list its methods. -/
def getAttribute (s : Store) (object : Value) (attr : String) : Except Fault Value :=
  match object with
  | .classObject name scope _ =>
    match s.get? scope attr with
    | some v => .ok v
    | none => .error (.noClassAttribute name attr)
  | .list r =>
    match ListMethod.ofName? attr with
    | some m => .ok (.method r m)
    | none => .error (.noAttribute "list" attr)
  | v => .error (.noAttribute v.typeName attr)

def setAttribute (object : Value) (attr : String) (value : Value) : Except Fault (Edit Unit) :=
  match object with
  | .classObject _ scope _ => .ok (.update (·.set scope attr value))
  | v => .error (.readOnlyAttribute v.typeName attr)

def deleteAttribute (s : Store) (object : Value) (attr : String) : Except Fault (Edit Unit) :=
  match object with
  | .classObject _ scope _ =>
    if (s.get? scope attr).isSome then .ok (.update (·.erase scope attr))
    else .error (.noAttribute "type" attr)
  | v => .error (.noAttribute v.typeName attr)

/-- What an iteration over a value goes through: of a list, the items it has now. -/
def iterate (s : Store) : Value → Except Fault Items
  | .list r => .ok (.values (s.items r).toList)
  | .tuple _ items => .ok (.values items)
  | .str t => .ok (.values (t.toList.map fun c => .str c.toString))
  | .range r => .ok (.progression r)
  | v => .error (.notIterable v.typeName)

/-- Fails for a progression that is too long to be collected. -/
def checkCollectable : Value → Except Fault Unit
  | .range r => checkLength r.length
  | _ => .ok ()

def extend (s : Store) (r : ListRef) (items : List Value) : Except Fault (Edit Unit) := do
  checkLength (s.size r + items.length)
  return .update (·.modifyList r (· ++ items))

/-- Checks the values that are to be assigned to so many targets. -/
def unpacked (expected : Nat) (items : Items) : Except Fault (List Value) :=
  let got := items.take (expected + 1)
  if got.length < expected then .error (.tooFewToUnpack expected got.length)
  else if expected < got.length then .error (.tooManyToUnpack expected)
  else .ok got

end Store

end Footprint
