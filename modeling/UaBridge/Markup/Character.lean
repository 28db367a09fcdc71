namespace UaBridge.Markup

def isSpace (c : Char) : Bool := c == ' ' || c == '\t' || c == '\n' || c == '\r'

def isAllowed (c : Char) : Bool :=
  if c.toNat < 0x20 then isSpace c else c.toNat != 0xfffe && c.toNat != 0xffff

def between (low high : Nat) (c : Char) : Bool := low ≤ c.toNat && c.toNat ≤ high

def isNameStart (c : Char) : Bool :=
  c == ':' || c == '_' || between 0x41 0x5a c || between 0x61 0x7a c || between 0xc0 0xd6 c ||
    between 0xd8 0xf6 c || between 0xf8 0x2ff c || between 0x370 0x37d c ||
    between 0x37f 0x1fff c || between 0x200c 0x200d c || between 0x2070 0x218f c ||
    between 0x2c00 0x2fef c || between 0x3001 0xd7ff c || between 0xf900 0xfdcf c ||
    between 0xfdf0 0xfffd c || between 0x10000 0xeffff c

def isNameChar (c : Char) : Bool :=
  isNameStart c || c == '-' || c == '.' || between 0x30 0x39 c || c.toNat == 0xb7 ||
    between 0x300 0x36f c || between 0x203f 0x2040 c

def upTo (pattern : List Char) : List Char → Option (List Char × List Char)
  | [] => none
  | c :: r =>
    if pattern.isPrefixOf (c :: r) then some ([], (c :: r).drop pattern.length)
    else if isAllowed c then (upTo pattern r).map fun p => (c :: p.1, p.2)
    else none

def contains (pattern : List Char) : List Char → Bool
  | [] => pattern.isEmpty
  | c :: r => pattern.isPrefixOf (c :: r) || contains pattern r

end UaBridge.Markup
