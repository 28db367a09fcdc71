import UaBridge.Text.Digits
import UaBridge.Yaml.Character

namespace UaBridge.Yaml

/-- Text read so far, held backwards, and the white space after it that still has to be folded. -/
structure Fold where
  text : List Char
  blanks : List Char
  broken : Bool
  first : Option Char
  more : List Char

namespace Fold

def empty : Fold := ⟨[], [], false, none, []⟩

def blank (f : Fold) (c : Char) : Fold := if f.broken then f else { f with blanks := c :: f.blanks }

def lineEnd (f : Fold) (c : Char) : Fold :=
  if f.broken then { f with more := c :: f.more }
  else { f with blanks := [], broken := true, first := some c }

def escapedEnd (f : Fold) : Fold := { f with broken := true, first := none }

def folded (f : Fold) : List Char :=
  if f.broken then
    match f.first with
    | some '\n' => if f.more = [] then ' ' :: f.text else f.more ++ f.text
    | some c => f.more ++ c :: f.text
    | none => f.more ++ f.text
  else f.blanks ++ f.text

def settled (f : Fold) : Fold := ⟨f.folded, [], false, none, []⟩

def char (f : Fold) (c : Char) : Fold := { f.settled with text := c :: f.folded }

end Fold

structure Scanned where
  text : String
  broken : Bool
  place : Place
  rest : List Char

def isBracketSign (c : Char) : Bool :=
  c == ',' || c == '[' || c == ']' || c == '\x7b' || c == '\x7d'

def isMisplacedColon : List Char → Bool
  | ':' :: c :: _ => isBracketSign c || c == '?'
  | _ => false

/-- A plain scalar. `inside` says whether it stands inside brackets; outside of them, its further
lines begin at column `indent` or later. `word` says that the last character was text. -/
def scanPlain (inside : Bool) (indent : Int) (word : Bool) (f : Fold) (p : Place) :
    List Char → Option Scanned
  | [] => some ⟨String.ofList f.text.reverse, f.broken, p, []⟩
  | '\r' :: '\n' :: r => scanPlain inside indent false (f.lineEnd '\n') (p.nextLine 2) r
  | c :: r =>
    let stop : Option Scanned := some ⟨String.ofList f.text.reverse, f.broken, p, c :: r⟩
    if isBlank c then
      if f.broken ∧ p.column < indent ∧ c = '\t' then none
      else scanPlain inside indent false (f.blank c) (p.next 1) r
    else if isBreak c then
      let counted := if c == '\u2028' || c == '\u2029' then c else '\n'
      scanPlain inside indent false (f.lineEnd counted) (p.nextLine 1) r
    else if !word && ((!inside && p.column < indent) || (p.column == 0 && startsMarker (c :: r)) ||
        c == '#') then stop
    else if inside && isMisplacedColon (c :: r) then none
    else if (c == ':' && endsWord r) || (inside && isBracketSign c) then stop
    else scanPlain inside indent true (f.char c) (p.next 1) r

def escape? : Char → Option (Char ⊕ Nat)
  | '0' => some (.inl '\x00')
  | 'a' => some (.inl '\x07')
  | 'b' => some (.inl '\x08')
  | 't' => some (.inl '\t')
  | '\t' => some (.inl '\t')
  | 'n' => some (.inl '\n')
  | 'v' => some (.inl '\x0b')
  | 'f' => some (.inl '\x0c')
  | 'r' => some (.inl '\r')
  | 'e' => some (.inl '\x1b')
  | ' ' => some (.inl ' ')
  | '\x22' => some (.inl '\x22')
  | '/' => some (.inl '/')
  | '\x5c' => some (.inl '\x5c')
  | 'N' => some (.inl '\x85')
  | '_' => some (.inl '\u00a0')
  | 'L' => some (.inl '\u2028')
  | 'P' => some (.inl '\u2029')
  | 'x' => some (.inr 2)
  | 'u' => some (.inr 4)
  | 'U' => some (.inr 8)
  | _ => none

def numbered? (count : Nat) (s : List Char) : Option Char :=
  if s.length < count then none
  else
    (Text.readDigits Text.hexDigit? 16 (s.take count)).bind fun n =>
      if n.isValidChar then some (Char.ofNat n) else none

inductive Progress where
  | finished (s : Scanned)
  | more (word : Bool) (f : Fold) (p : Place) (rest : List Char)

def escapeStep (f : Fold) (p : Place) (s : List Char) : Option Progress :=
  match lineBreak? s with
  | some (_, r) => some (.more false f.settled.escapedEnd (p.nextLine (1 + s.length - r.length)) r)
  | none =>
    match s with
    | [] => none
    | e :: r =>
      match escape? e with
      | none => none
      | some (.inl meant) => some (.more true (f.char meant) (p.next 2) r)
      | some (.inr count) =>
        (numbered? count r).map fun meant =>
          .more true (f.char meant) (p.next (2 + count)) (r.drop count)

def quotedStep (single word : Bool) (f : Fold) (p : Place) (s : List Char) : Option Progress :=
  if !word && p.column == 0 && startsMarker s then none
  else
    match lineBreak? s, s with
    | some (counted, r), _ =>
      some (.more false (f.lineEnd counted) (p.nextLine (s.length - r.length)) r)
    | none, [] => none
    | none, c :: r =>
      if isBlank c then some (.more false (f.blank c) (p.next 1) r)
      else if single ∧ c = '\x27' then
        match r with
        | '\x27' :: r => some (.more true (f.char c) (p.next 2) r)
        | _ => some (.finished ⟨String.ofList f.folded.reverse, false, p.next 1, r⟩)
      else if !single ∧ c = '\x22' then
        some (.finished ⟨String.ofList f.folded.reverse, false, p.next 1, r⟩)
      else if !single ∧ c = '\x5c' then escapeStep f p r
      else some (.more true (f.char c) (p.next 1) r)

def scanQuoted (single word : Bool) (f : Fold) (p : Place) (s : List Char) : Option Scanned :=
  match quotedStep single word f p s with
  | none => none
  | some (.finished scanned) => some scanned
  | some (.more word f p r) => if r.length < s.length then scanQuoted single word f p r else none
termination_by s.length

end UaBridge.Yaml
