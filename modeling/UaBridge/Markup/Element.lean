namespace UaBridge.Markup

inductive Node where
  | element (name : String) (attributes : List (String × String)) (children : List Node)
  | text (s : String)
  | aside

structure Element where
  name : String
  attributes : List (String × String)
  children : List Node

namespace Element

def toNode (e : Element) : Node := .element e.name e.attributes e.children

def attribute? (e : Element) (name : String) : Option String :=
  (e.attributes.find? (·.1 == name)).map (·.2)

def text (e : Element) : String :=
  match e.children with
  | .text s :: _ => s
  | _ => ""

end Element

def Node.element? : Node → Option Element
  | .element name attributes children => some ⟨name, attributes, children⟩
  | _ => none

def Element.named (e : Element) (name : String) : List Element :=
  (e.children.filterMap Node.element?).filter (·.name == name)

end UaBridge.Markup
