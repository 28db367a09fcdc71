import UaBridge.Markup.Content

namespace UaBridge.Markup

structure Name where
  space : String
  base : String
  deriving DecidableEq

inductive Item where
  | start (name : Name) (attributes : List (Name × String)) (closed : Bool)
  | stop (name : Name)
  | text (s : String)
  | aside

namespace Name

def startsWell (s : List Char) : Bool := (s.head?.map isNameStart).getD true

def ofChars? (s : List Char) : Option Name :=
  let space := s.takeWhile (· != ':')
  match s.dropWhile (· != ':') with
  | [] => if s = [] ∨ !startsWell s then none else some ⟨"", String.ofList s⟩
  | _ :: base =>
    if base = [] ∨ !startsWell space ∨ !startsWell base ∨ base.contains ':' then none
    else some ⟨String.ofList space, String.ofList base⟩

def read? (s : List Char) : Option (Name × List Char) :=
  (ofChars? (s.takeWhile isNameChar)).map fun name => (name, s.dropWhile isNameChar)

end Name

def skipSpaces (s : List Char) : List Char := s.dropWhile isSpace

def attribute? (s : List Char) : Option (Name × List Char × List Char) := do
  let (name, s) ← Name.read? s
  match skipSpaces s with
  | '=' :: s =>
    match skipSpaces s with
    | quote :: s =>
      if quote = '\x22' ∨ quote = '\x27' then
        let (value, s) ← upTo [quote] s
        if value.contains '<' then none else some (name, value, s)
      else none
    | [] => none
  | _ => none

def startTag? (name : Name) (attributes : List (Name × String)) (s : List Char) :
    Option (Item × List Char) :=
  match skipSpaces s with
  | '/' :: '>' :: r => some (.start name attributes.reverse true, r)
  | '>' :: r => some (.start name attributes.reverse false, r)
  | t =>
    if (s.head?.map isSpace).getD false then
      match attribute? t with
      | none => none
      | some (key, value, r) =>
        if r.length < s.length then
          match attributeValue value with
          | none => none
          | some value => startTag? name ((key, String.ofList value) :: attributes) r
        else none
    else none
termination_by s.length

def comment? (s : List Char) : Option (Item × List Char) := do
  let (text, r) ← upTo ['-', '-', '>'] s
  if contains ['-', '-'] text ∨ text.getLast? = some '-' then none else some (.aside, r)

def instruction? (s : List Char) : Option (Item × List Char) :=
  match s with
  | 'x' :: 'm' :: 'l' :: ' ' :: _ => none
  | _ => do
    let target := s.takeWhile isNameChar
    if target = [] ∨ !Name.startsWell target then none
    else do
      let (_, r) ← upTo ['?', '>'] (skipSpaces (s.dropWhile isNameChar))
      some (.aside, r)

def stopTag? (s : List Char) : Option (Item × List Char) := do
  let (name, s) ← Name.read? s
  match skipSpaces s with
  | '>' :: r => some (.stop name, r)
  | _ => none

def Item.next? : List Char → Option (Item × List Char)
  | '<' :: '!' :: '-' :: '-' :: r => comment? r
  | '<' :: '!' :: '[' :: 'C' :: 'D' :: 'A' :: 'T' :: 'A' :: '[' :: r => do
    let (s, r) ← upTo [']', ']', '>'] r
    some (.text (String.ofList (literalData s)), r)
  | '<' :: '?' :: r => instruction? r
  | '<' :: '/' :: r => stopTag? r
  | '<' :: r => do
    let (name, r) ← Name.read? r
    startTag? name [] r
  | s => do
    let raw := s.takeWhile (· != '<')
    if raw.all isAllowed then
      some (.text (String.ofList (← characterData raw)), s.dropWhile (· != '<'))
    else none

def Item.nextOutside? (s : List Char) : Option (Item × List Char) :=
  match s with
  | '<' :: '!' :: '-' :: '-' :: r => comment? r
  | '<' :: '?' :: r => instruction? r
  | '<' :: r => do
    let (name, r) ← Name.read? r
    startTag? name [] r
  | _ => none

end UaBridge.Markup
