import UaBridge.Markup.Element
import UaBridge.Markup.Tag

/-!
Documents as element trees. Tags have to match, spaces of names have to be bound to a namespace, and
no attribute occurs twice on an element. Document types are not accepted.
-/

namespace UaBridge.Markup

def spacesSpace : String := "http://www.w3.org/2000/xmlns/"

def reservedSpace : String := "http://www.w3.org/XML/1998/namespace"

/-- Bindings of spaces to namespaces, innermost first; the empty space is the default one. -/
abbrev Bindings := List (String × String)

def declare (declared : Bindings) : Name × String → Option Bindings
  | (⟨"xmlns", base⟩, namespaceName) =>
    if namespaceName = spacesSpace ∨ (base == "xml") ≠ (namespaceName == reservedSpace) ∨
        declared.any (·.1 == base) then none
    else if base = "xml" then some declared
    else some (declared ++ [(base, namespaceName)])
  | (⟨_, "xmlns"⟩, namespaceName) =>
    if namespaceName = spacesSpace ∨ namespaceName = reservedSpace then none
    else some (declared ++ [("", namespaceName)])
  | _ => some declared

def isDeclaration (n : Name) : Bool := n.space == "xmlns" || n.base == "xmlns"

def Bindings.ofAttribute? (b : Bindings) (n : Name) : Option (Option String) :=
  if n.space = "" then some none
  else if n.space = "xml" then some (some reservedSpace)
  else (b.lookup n.space).map some

structure Frame where
  name : Name
  attributes : List (String × String)
  bindings : Bindings
  children : List Node

def Frame.toNode (f : Frame) : Node := .element f.name.base f.attributes f.children.reverse

def Frame.ofStart? (outer : Bindings) (name : Name) (attributes : List (Name × String)) :
    Option Frame := do
  let declared ← attributes.foldlM declare []
  let bindings := declared ++ outer
  let proper := attributes.filter fun a => !isDeclaration a.1
  let keys ← proper.mapM fun a => (bindings.ofAttribute? a.1).map fun s => (s, a.1.base)
  if name.space = "xmlns" ∨ ¬keys.Nodup ∨
      (name.space ≠ "" ∧ (bindings.lookup name.space).isNone) then none
  else
    some ⟨name, (proper.filter (·.1.space == "")).map fun a => (a.1.base, a.2), bindings, []⟩

def Frame.add (f : Frame) (n : Node) : Frame :=
  match n, f.children with
  | .text s, .text before :: r => { f with children := .text (before ++ s) :: r }
  | _, _ => { f with children := n :: f.children }

structure Builder where
  frames : List Frame
  root : Option Node

namespace Builder

def put (b : Builder) (n : Node) : Builder :=
  match b.frames with
  | [] => { b with root := some n }
  | f :: r => { b with frames := f.add n :: r }

def step (b : Builder) : Item → Option Builder
  | .start name attributes closed => do
    if b.frames.isEmpty && b.root.isSome then none
    let f ← Frame.ofStart? ((b.frames.head?.map Frame.bindings).getD []) name attributes
    if closed then some (b.put f.toNode) else some { b with frames := f :: b.frames }
  | .stop name =>
    match b.frames with
    | f :: r => if f.name = name then some ({ b with frames := r }.put f.toNode) else none
    | [] => none
  | .text s => some (b.put (.text s))
  | .aside => some (if b.frames.isEmpty then b else b.put .aside)

def run (b : Builder) (s : List Char) : Option Builder :=
  let t := if b.frames.isEmpty then skipSpaces s else s
  if t = [] then some b
  else
    match if b.frames.isEmpty then Item.nextOutside? t else Item.next? t with
    | none => none
    | some (item, r) =>
      if r.length < s.length then
        match b.step item with
        | none => none
        | some b => b.run r
      else none
termination_by s.length

end Builder

def declared? (name : List Char) (s : List Char) : Option (List Char) :=
  if name.isPrefixOf s then (attribute? s).map (·.2.2) else none

def separated? (s : List Char) : Option (List Char) :=
  if (s.head?.map isSpace).getD false then some (skipSpaces s)
  else if ['?', '>'].isPrefixOf s then some s
  else none

def afterDeclaration? (s : List Char) : Option (List Char) :=
  match s with
  | '<' :: '?' :: 'x' :: 'm' :: 'l' :: ' ' :: r => do
    let s ← declared? "version".toList (skipSpaces r)
    let s ← separated? s
    let s ← if "encoding".toList.isPrefixOf s then do
        separated? (← declared? "encoding".toList s)
      else some s
    let s ← if "standalone".toList.isPrefixOf s then declared? "standalone".toList s else some s
    match skipSpaces s with
    | '?' :: '>' :: r => some r
    | _ => none
  | _ => some s

def Element.parse? (text : String) : Option Element := do
  let s := match text.toList with
    | '\ufeff' :: r => r
    | s => s
  let b ← Builder.run ⟨[], none⟩ (← afterDeclaration? s)
  if b.frames.isEmpty then b.root.bind Node.element? else none

end UaBridge.Markup
