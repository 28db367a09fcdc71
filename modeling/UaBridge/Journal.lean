import UaBridge.Plant.Datum

namespace UaBridge

inductive Direction where
  | decode
  | encode
  deriving DecidableEq

def Direction.name : Direction → String
  | .decode => "decode"
  | .encode => "encode"

inductive Note where
  | loadingDefinition (id : NodeId)
  | loadingSupertypes (id : NodeId)
  | supertypesLoaded (id : NodeId) (count : Nat)
  | entering (direction : Direction) (depth : Nat) (type : NodeId) (name : String) (fields : Nat)
  | consulting (pending : Nat) (type ancestor : NodeId)
  | converting (depth position : Nat) (field : String) (type : NodeId)
  | decoded (type : NodeId) (result : Plant.Datum)
  | encoded (type : NodeId) (value : Plant.Datum)
  | batched (dateTime : Int64) (count : Nat)
  | documentLoaded (definitions : Nat)
  | nodeSetLoaded (definitions links aliases : Nat)

inductive Level where
  | debug
  | trace
  deriving DecidableEq

namespace Note

def level : Note → Level
  | entering .. | consulting .. | converting .. => .trace
  | _ => .debug

def indent (depth : Nat) : String := String.ofList (List.replicate (2 * depth) ' ')

def text : Note → String
  | loadingDefinition id => "[resolver-cache] loading structure definition of " ++ id.text
  | loadingSupertypes id => "[resolver-cache] loading supertypes of " ++ id.text
  | supertypesLoaded id count =>
    "[resolver-cache] " ++ id.text ++ " has " ++ Text.natText count ++ " supertype(s)"
  | entering direction depth type name fields =>
    indent depth ++ direction.name ++ " " ++ type.text ++ " '" ++ name ++ "' (" ++
      Text.natText fields ++ " field(s))"
  | consulting pending type ancestor =>
    "looking up " ++ Text.natText pending ++ " field(s) of " ++ type.text ++ " in supertype " ++
      ancestor.text
  | converting depth position field type =>
    indent (depth + 1) ++ "#" ++ Text.natText position ++ " " ++ field ++ ": " ++ type.text
  | decoded type result => "[convert] " ++ type.text ++ " -> IO: " ++ result.text
  | encoded type value => "[convert] IO -> " ++ type.text ++ ": " ++ value.text
  | batched dateTime count =>
    "[convert] event @" ++ Text.intText dateTime.toInt ++ " with " ++ Text.natText count ++
      " node(s)"
  | documentLoaded definitions =>
    "[yaml-types] loaded " ++ Text.natText definitions ++ " structure definition(s)"
  | nodeSetLoaded definitions links aliases =>
    "[nodeset] loaded " ++ Text.natText definitions ++ " structure definition(s), " ++
      Text.natText links ++ " subtype link(s), " ++ Text.natText aliases ++ " alias(es)"

end Note
end UaBridge
