namespace UaBridge.Yaml

def isAllowed (c : Char) : Bool :=
  let n := c.toNat
  n == 0x09 || n == 0x0a || n == 0x0d || (0x20 ≤ n && n ≤ 0x7e) || n == 0x85 ||
    (0xa0 ≤ n && n ≤ 0xd7ff) || (0xe000 ≤ n && n ≤ 0xfffd) || 0x10000 ≤ n

def isBlank (c : Char) : Bool := c == ' ' || c == '\t'

def isBreak (c : Char) : Bool :=
  c == '\n' || c == '\r' || c == '\x85' || c == '\u2028' || c == '\u2029'

def endsWord : List Char → Bool
  | [] => true
  | c :: _ => isBlank c || isBreak c

def lineBreak? : List Char → Option (Char × List Char)
  | '\r' :: '\n' :: r => some ('\n', r)
  | c :: r =>
    if c == '\u2028' || c == '\u2029' then some (c, r)
    else if isBreak c then some ('\n', r)
    else none
  | [] => none

def startsMarker : List Char → Bool
  | '-' :: '-' :: '-' :: r => endsWord r
  | '.' :: '.' :: '.' :: r => endsWord r
  | _ => false

structure Place where
  line : Nat
  column : Nat
  index : Nat

def Place.next (p : Place) (count : Nat) : Place :=
  { p with column := p.column + count, index := p.index + count }

def Place.nextLine (p : Place) (count : Nat) : Place := ⟨p.line + 1, 0, p.index + count⟩

end UaBridge.Yaml
