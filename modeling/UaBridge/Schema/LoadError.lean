import UaBridge.NodeId.Text

namespace UaBridge

inductive LoadError where
  | file
  | markup
  | yaml
  | nodeId (value : String) (error : NodeId.ParseError)
  | missingAttribute (element key : String)
  | invalidValue (key value : String)
  | unknownName (name : String)
  deriving DecidableEq

def LoadError.message? : LoadError → Option String
  | .file | .markup | .yaml => none
  | .nodeId value error => some ("invalid node id '" ++ value ++ "': " ++ error.message)
  | .missingAttribute element key =>
    some ("missing attribute '" ++ key ++ "' on <" ++ element ++ ">")
  | .invalidValue key value =>
    some ("invalid value '" ++ value ++ "' for '" ++ key ++ "'")
  | .unknownName name => some ("unknown built-in type '" ++ name ++ "'")

def NodeId.ofDocument (value : String) : Except LoadError NodeId :=
  (NodeId.parse value).mapError (.nodeId value)

def textOfFile (content : List UInt8) : Except LoadError String :=
  match String.fromUTF8? (ByteArray.mk content.toArray) with
  | some text => .ok text
  | none => .error .file

end UaBridge
