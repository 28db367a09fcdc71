import UaBridge.Yaml.Token

namespace UaBridge.Yaml

inductive Node where
  | scalar (text : String) (plain : Bool)
  | sequence (items : List Node)
  | mapping (entries : List (Node × Node))

namespace Node

def absent : Node := .scalar "" true

abbrev Reading (α : Type) := Option (α × List Token)

def endsInBlock : List Token → Bool
  | .key :: _ | .value :: _ | .blockEnd :: _ => true
  | _ => false

mutual

/-- A node; a list without indentation of its own counts as one where `list` says so. -/
def read (fuel : Nat) (block list : Bool) (ts : List Token) : Reading Node :=
  match fuel, ts with
  | 0, _ => none
  | _ + 1, .scalar text plain :: r => some (.scalar text plain, r)
  | fuel + 1, .entry :: r => if list then readList fuel [] (.entry :: r) else none
  | fuel + 1, .openSequence :: r => readBracketed fuel true [] r
  | fuel + 1, .openMapping :: r => readBraced fuel true [] r
  | fuel + 1, .blockSequence :: r => if block then readBlockSequence fuel [] r else none
  | fuel + 1, .blockMapping :: r => if block then readBlockMapping fuel [] r else none
  | _, _ => none

def readOptional (fuel : Nat) (absentBefore : List Token → Bool) (block list : Bool)
    (ts : List Token) : Reading Node :=
  match fuel with
  | 0 => none
  | fuel + 1 => if absentBefore ts then some (.absent, ts) else read fuel block list ts

def readBlockSequence (fuel : Nat) (items : List Node) (ts : List Token) : Reading Node :=
  match fuel, ts with
  | fuel + 1, .entry :: r =>
    let next : Reading Node := match r with
      | .entry :: _ | .blockEnd :: _ => some (.absent, r)
      | _ => read fuel true false r
    match next with
    | none => none
    | some (item, r) => readBlockSequence fuel (item :: items) r
  | _ + 1, .blockEnd :: r => some (.sequence items.reverse, r)
  | _, _ => none

def readList (fuel : Nat) (items : List Node) (ts : List Token) : Reading Node :=
  match fuel, ts with
  | fuel + 1, .entry :: r =>
    let next : Reading Node := match r with
      | .entry :: _ | .key :: _ | .value :: _ | .blockEnd :: _ => some (.absent, r)
      | _ => read fuel true false r
    match next with
    | none => none
    | some (item, r) => readList fuel (item :: items) r
  | _ + 1, ts => some (.sequence items.reverse, ts)
  | 0, _ => none

def readBlockMapping (fuel : Nat) (entries : List (Node × Node)) (ts : List Token) :
    Reading Node :=
  match fuel, ts with
  | fuel + 1, .key :: r =>
    match readOptional fuel endsInBlock true true r with
    | none => none
    | some (key, r) =>
      match readBlockValue fuel r with
      | none => none
      | some (value, r) => readBlockMapping fuel ((key, value) :: entries) r
  | _ + 1, .blockEnd :: r => some (.mapping entries.reverse, r)
  | _, _ => none

def readBlockValue (fuel : Nat) (ts : List Token) : Reading Node :=
  match fuel, ts with
  | fuel + 1, .value :: r => readOptional fuel endsInBlock true true r
  | _ + 1, ts => some (.absent, ts)
  | 0, _ => none

def readValue (fuel : Nat) (absentBefore : List Token → Bool) (ts : List Token) : Reading Node :=
  match fuel, ts with
  | fuel + 1, .value :: r => readOptional fuel absentBefore false false r
  | _ + 1, ts => some (.absent, ts)
  | 0, _ => none

def readItemKey (fuel : Nat) (ts : List Token) : Reading Node :=
  match fuel, ts with
  | _ + 1, .value :: r | _ + 1, .comma :: r | _ + 1, .closeSequence :: r => some (.absent, r)
  | fuel + 1, ts => read fuel false false ts
  | 0, _ => none

/-- The items up to a closing bracket. An item that begins like a key is a mapping of one entry. -/
def readBracketed (fuel : Nat) (first : Bool) (items : List Node) (ts : List Token) :
    Reading Node :=
  match fuel, ts with
  | _ + 1, .closeSequence :: r => some (.sequence items.reverse, r)
  | fuel + 1, ts =>
    let rest : Option (List Token) :=
      match first, ts with
      | true, ts => some ts
      | false, .comma :: r => some r
      | false, _ => none
    match rest with
    | none => none
    | some (.closeSequence :: r) => some (.sequence items.reverse, r)
    | some (.key :: r) =>
      let ends : List Token → Bool
        | .comma :: _ | .closeSequence :: _ => true
        | _ => false
      match readItemKey fuel r with
      | none => none
      | some (key, r) =>
        match readValue fuel ends r with
        | none => none
        | some (value, r) => readBracketed fuel false (.mapping [(key, value)] :: items) r
    | some r =>
      match read fuel false false r with
      | none => none
      | some (item, r) => readBracketed fuel false (item :: items) r
  | 0, _ => none

def readBraced (fuel : Nat) (first : Bool) (entries : List (Node × Node)) (ts : List Token) :
    Reading Node :=
  match fuel, ts with
  | _ + 1, .closeMapping :: r => some (.mapping entries.reverse, r)
  | fuel + 1, ts =>
    let rest : Option (List Token) :=
      match first, ts with
      | true, ts => some ts
      | false, .comma :: r => some r
      | false, _ => none
    match rest with
    | none => none
    | some (.closeMapping :: r) => some (.mapping entries.reverse, r)
    | some (.key :: r) =>
      let keyEnds : List Token → Bool
        | .value :: _ | .comma :: _ | .closeMapping :: _ => true
        | _ => false
      let ends : List Token → Bool
        | .comma :: _ | .closeMapping :: _ => true
        | _ => false
      match readOptional fuel keyEnds false false r with
      | none => none
      | some (key, r) =>
        match readValue fuel ends r with
        | none => none
        | some (value, r) => readBraced fuel false ((key, value) :: entries) r
    | some r =>
      match read fuel false false r with
      | none => none
      | some (key, r) => readBraced fuel false ((key, .absent) :: entries) r
  | 0, _ => none

end

def endsDocument : List Token → Bool
  | [] | .documentStart :: _ | .documentEnd :: _ => true
  | _ => false

def ofTokens? (ts : List Token) : Option Node := do
  let fuel := 3 * ts.length + 3
  let (node, rest) ← match ts with
    | [] => some (.absent, [])
    | .documentStart :: r => if endsDocument r then some (.absent, r) else read fuel true false r
    | r => read fuel true false r
  if rest.all (· == .documentEnd) then some node else none

def parse? (text : String) : Option Node := (tokens? text).bind ofTokens?

end Node
end UaBridge.Yaml
