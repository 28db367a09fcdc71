import UaBridge.Markup.Character
import UaBridge.Text.Digits

namespace UaBridge.Markup

inductive Piece where
  | plain (c : Char)
  | exact (c : Char)
  deriving DecidableEq

/-- The character with a number; numbers that are no character stand for U+FFFD. -/
def characterOf? (n : Nat) : Option Char :=
  if n < UInt32.size then
    let c := if n.isValidChar then Char.ofNat n else Char.ofNat 0xfffd
    if isAllowed c then some c else none
  else none

def reference? : List Char → Option (Char × List Char)
  | 'q' :: 'u' :: 'o' :: 't' :: ';' :: r => some ('\x22', r)
  | 'a' :: 'p' :: 'o' :: 's' :: ';' :: r => some ('\x27', r)
  | 'a' :: 'm' :: 'p' :: ';' :: r => some ('&', r)
  | 'l' :: 't' :: ';' :: r => some ('<', r)
  | 'g' :: 't' :: ';' :: r => some ('>', r)
  | '#' :: r =>
    let (digit?, base, s) := match r with
      | 'x' :: h => (Text.hexDigit?, 16, h)
      | d => (Text.decimalDigit?, 10, d)
    match s.dropWhile fun c => (digit? c).isSome with
    | ';' :: after =>
      let digits := s.takeWhile fun c => (digit? c).isSome
      ((Text.readNat digit? base digits).bind characterOf?).map fun c => (c, after)
    | _ => none
  | _ => none

def pieces : List Char → Option (List Piece)
  | [] => some []
  | '&' :: r =>
    match reference? r with
    | none => none
    | some (c, after) =>
      if after.length ≤ r.length then (pieces after).map (.exact c :: ·) else none
  | c :: r => (pieces r).map (.plain c :: ·)
termination_by s => s.length
decreasing_by all_goals simp_wf <;> omega

/-- Appends a character to text that is held backwards. A carriage return waits there for its line
feed; at the end of the text nothing can follow it. -/
def append (text : List Char) (c : Char) (last : Bool) : List Char :=
  match text with
  | '\r' :: before =>
    if last ∧ c = '\r' then '\n' :: '\n' :: before
    else if c = '\n' then '\n' :: before
    else c :: '\n' :: before
  | _ => (if last ∧ c = '\r' then '\n' else c) :: text

/-- Text with its line ends made line feeds. The character after a reference is taken as it is. -/
def settle (text : List Char) (afterReference : Bool) : List Piece → List Char
  | [] => text.reverse
  | .exact c :: r => settle (c :: text) true r
  | .plain c :: r =>
    if afterReference then settle (c :: text) false r
    else settle (append text c r.isEmpty) false r

def characterData (s : List Char) : Option (List Char) :=
  if contains [']', ']', '>'] s then none else (pieces s).map (settle [] false)

def literalData (s : List Char) : List Char := settle [] false (s.map .plain)

def flatten : List Piece → List Char
  | [] => []
  | .exact c :: r => c :: flatten r
  | .plain '\r' :: .plain '\n' :: r => flatten (.plain '\n' :: r)
  | .plain c :: r => (if isSpace c then ' ' else c) :: flatten r

def attributeValue (s : List Char) : Option (List Char) := (pieces s).map flatten

end UaBridge.Markup
