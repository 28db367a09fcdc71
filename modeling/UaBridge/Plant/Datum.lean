import UaBridge.Failure

namespace UaBridge.Plant

inductive Datum where
  | scalar (value : Scalar)
  | address (value : Address)
  | record (type : Address) (fields : List (String × Datum))
  | array (kind : Kind) (elements : List Datum)

namespace Datum

def form : Datum → Form
  | scalar _ => .scalar
  | address _ => .address
  | record .. => .record
  | array .. => .array

def isArray (d : Datum) : Bool := d.form == .array

def elementKind? : Datum → Option Kind
  | scalar value => some (.scalar value.kind)
  | address _ => some .address
  | record .. => some .record
  | array .. => none

def misfit? (kind : Kind) : Nat → List Datum → Option Cause
  | _, [] => none
  | index, d :: r =>
    match d.elementKind? with
    | none => some (.nestedArrayAt index)
    | some found =>
      if found = kind then misfit? kind (index + 1) r else some (.mixedData kind found index)

def array? (kind : Kind) (elements : List Datum) : Except Failure Datum :=
  match misfit? kind 0 elements with
  | none => .ok (.array kind elements)
  | some cause => .error (.of cause)

mutual

/-- Equality that compares floating point values as numbers. -/
def same : Datum → Datum → Bool
  | scalar a, scalar b => a.same b
  | address a, address b => a == b
  | record t a, record u b => t == u && sameFields a b
  | array k a, array l b => k == l && sameElements a b
  | _, _ => false
termination_by structural a => a

def sameFields : List (String × Datum) → List (String × Datum) → Bool
  | [], [] => true
  | a :: r, b :: s => sameField a b && sameFields r s
  | _, _ => false
termination_by structural a => a

def sameField : String × Datum → String × Datum → Bool
  | (n, a), (m, b) => n == m && a.same b
termination_by structural a => a

def sameElements : List Datum → List Datum → Bool
  | [], [] => true
  | a :: r, b :: s => a.same b && sameElements r s
  | _, _ => false
termination_by structural a => a

end

mutual

def text : Datum → String
  | scalar value => value.text
  | address value => "<" ++ value.text ++ ">"
  | record type fields =>
    "<" ++ type.text ++ "> \x7b" ++ ",".intercalate (fieldTexts fields) ++ " \x7d"
  | array _ elements => "[" ++ ", ".intercalate (texts elements) ++ "]"
termination_by structural d => d

def fieldTexts : List (String × Datum) → List String
  | [] => []
  | f :: r => fieldText f :: fieldTexts r
termination_by structural fs => fs

def fieldText : String × Datum → String
  | (name, value) => " " ++ name ++ ": " ++ value.text
termination_by structural f => f

def texts : List Datum → List String
  | [] => []
  | d :: r => d.text :: texts r
termination_by structural ds => ds

end
end Datum

structure Record where
  type : Address
  fields : List (String × Datum)

namespace Record

def toDatum (r : Record) : Datum := .record r.type r.fields

def empty (type : Address) : Record := ⟨type, []⟩

def field? (r : Record) (name : String) : Option Datum :=
  (r.fields.find? (·.1 == name)).map (·.2)

def push (r : Record) (name : String) (value : Datum) : Except Failure Record :=
  if (r.field? name).isSome then .error (.of (.duplicateField name r.type))
  else .ok { r with fields := r.fields ++ [(name, value)] }

def ofFields (type : Address) (fields : List (String × Datum)) : Except Failure Record :=
  fields.foldlM (fun r f => r.push f.1 f.2) (empty type)

end Record
end UaBridge.Plant
