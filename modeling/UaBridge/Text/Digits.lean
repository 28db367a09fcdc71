namespace UaBridge.Text

def decimalDigit? (c : Char) : Option Nat :=
  if '0' ≤ c ∧ c ≤ '9' then some (c.toNat - 48) else none

def hexDigit? (c : Char) : Option Nat :=
  if '0' ≤ c ∧ c ≤ '9' then some (c.toNat - 48)
  else if 'a' ≤ c ∧ c ≤ 'f' then some (c.toNat - 87)
  else if 'A' ≤ c ∧ c ≤ 'F' then some (c.toNat - 55)
  else none

def readDigits (digit? : Char → Option Nat) (base : Nat) (s : List Char) : Option Nat :=
  s.foldlM (fun n c => (digit? c).map (base * n + ·)) 0

def readNat (digit? : Char → Option Nat) (base : Nat) : List Char → Option Nat
  | [] => none
  | s => readDigits digit? base s

/-- An unsigned decimal number below `bound`; one leading plus sign is allowed. -/
def readUnsigned (bound : Nat) (s : List Char) : Option Nat :=
  let digits := match s with
    | '+' :: r => r
    | _ => s
  (readNat decimalDigit? 10 digits).filter (· < bound)

def decimal (n : Nat) : List Char := Nat.toDigits 10 n

def decimalInt : Int → List Char
  | .ofNat n => decimal n
  | .negSucc n => '-' :: decimal (n + 1)

def natText (n : Nat) : String := String.ofList (decimal n)

def intText (n : Int) : String := String.ofList (decimalInt n)

def hexDigit (n : Nat) : Char := (Nat.toDigits 16 n).headD '0'

def hexPair (b : UInt8) : List Char := [hexDigit (b.toNat / 16), hexDigit (b.toNat % 16)]

def hex (bytes : List UInt8) : List Char := bytes.flatMap hexPair

/-- One byte from two characters: two hexadecimal digits, or a plus sign and one. -/
def byteOfPair? (a b : Char) : Option UInt8 :=
  let high := if a = '+' then some 0 else hexDigit? a
  high.bind fun h => (hexDigit? b).map fun l => UInt8.ofNat (16 * h + l)

def readBytes : Nat → List Char → Option (List UInt8 × List Char)
  | 0, s => some ([], s)
  | n + 1, a :: b :: r =>
    (byteOfPair? a b).bind fun x => (readBytes n r).map fun p => (x :: p.1, p.2)
  | _ + 1, _ => none

end UaBridge.Text
