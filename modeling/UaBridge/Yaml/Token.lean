import UaBridge.Yaml.Scalar

/-!
Tokens of a YAML document. Indentation becomes tokens of its own: a block opens where a line goes
further in than the block around it, and closes where one goes back. What stands before a colon on
one line is a key; whether something is one shows only at the colon, so its place is remembered.
-/

namespace UaBridge.Yaml

inductive Token where
  | documentStart
  | documentEnd
  | blockSequence
  | blockMapping
  | blockEnd
  | openSequence
  | closeSequence
  | openMapping
  | closeMapping
  | entry
  | comma
  | key
  | value
  | scalar (text : String) (plain : Bool)
  deriving DecidableEq

/-- Where a key may have begun: its place in the document and among the tokens. -/
structure KeyMark where
  place : Place
  token : Nat
  /-- It begins where the keys of its block begin, so it has to be one. -/
  required : Bool

structure Scanner where
  rest : List Char
  place : Place
  /-- Column of the innermost block, and of those around it; none of them is -1. -/
  indent : Int
  outer : List Int
  keyAllowed : Bool
  /-- What may be a key: outside brackets, and inside each open bracket, innermost first. -/
  marks : List (Option KeyMark)
  tokens : Array Token

namespace Scanner

def start (s : List Char) : Scanner := ⟨s, ⟨0, 0, 0⟩, -1, [], true, [none], #[]⟩

def inside (s : Scanner) : Bool := 1 < s.marks.length

def emit (s : Scanner) (t : Token) : Scanner := { s with tokens := s.tokens.push t }

def skip (s : Scanner) (count : Nat) : Scanner :=
  { s with rest := s.rest.drop count, place := s.place.next count }

/-- Skips blanks and line ends. A tab is no indentation. A byte order mark at the beginning of a
line is skipped and takes up a column. -/
def skipGap (s : Scanner) : List Char → Scanner
  | [] => { s with rest := [] }
  | '\r' :: '\n' :: r =>
    { s with place := s.place.nextLine 2, keyAllowed := s.keyAllowed || !s.inside }.skipGap r
  | c :: r =>
    let mark := s.place.column = 0 ∧ c = '\ufeff'
    if mark ∨ c = ' ' ∨ (c = '\t' ∧ (s.inside ∨ !s.keyAllowed)) then
      { s with place := s.place.next 1 }.skipGap r
    else if isBreak c then
      { s with place := s.place.nextLine 1, keyAllowed := s.keyAllowed || !s.inside }.skipGap r
    else { s with rest := c :: r }

def skipComment (s : Scanner) : Scanner :=
  let comment := s.rest.takeWhile fun c => !isBreak c
  s.skip comment.length

def toNext (s : Scanner) : Scanner :=
  let t := s.skipGap s.rest
  match t.rest with
  | '#' :: _ =>
    let u := t.skipComment
    if u.rest.length < s.rest.length then u.toNext else u
  | _ => t
termination_by s.rest.length

def unroll (s : Scanner) (column : Int) : Scanner :=
  if s.inside then s
  else
    let blocks := s.indent :: s.outer
    let closed := (blocks.takeWhile (column < ·)).length
    { s with
      indent := (blocks.drop closed).headD (-1)
      outer := (blocks.drop closed).tail
      tokens := s.tokens ++ (List.replicate closed Token.blockEnd).toArray }

def insertAt (s : Scanner) (i : Nat) (t : Token) : Scanner :=
  { s with tokens := s.tokens.extract 0 i ++ #[t] ++ s.tokens.extract i s.tokens.size }

/-- Opens a block at `column`, with its token before the one numbered `i`, if that is further in. -/
def roll (s : Scanner) (column : Nat) (i : Nat) (t : Token) : Scanner :=
  if !s.inside ∧ s.indent < column then
    { s.insertAt i t with indent := column, outer := s.indent :: s.outer }
  else s

def unmark? (s : Scanner) : Option Scanner :=
  match s.marks with
  | some mark :: outer => if mark.required then none else some { s with marks := none :: outer }
  | _ => some s

def markKey? (s : Scanner) : Option Scanner :=
  if s.keyAllowed then
    let required := !s.inside && s.indent == s.place.column
    s.unmark?.map fun t =>
      { t with marks := some ⟨s.place, s.tokens.size, required⟩ :: t.marks.tail }
  else some s

/-- A key stands on one line, and its colon within 1024 characters. -/
def reaches (s : Scanner) (mark : KeyMark) : Bool :=
  mark.place.line == s.place.line && s.place.index ≤ mark.place.index + 1024

def dropStale? (s : Scanner) : Option Scanner :=
  if s.marks.any (·.any fun mark => mark.required && !s.reaches mark) then none
  else some { s with marks := s.marks.map (·.filter s.reaches) }

def sign (s : Scanner) (t : Token) (count : Nat) (keyAllowed : Bool) : Scanner :=
  { (s.emit t).skip count with keyAllowed := keyAllowed }

def openBracket? (s : Scanner) (t : Token) : Option Scanner :=
  s.markKey?.map fun u => { u.sign t 1 true with marks := none :: u.marks }

def closeBracket? (s : Scanner) (t : Token) : Option Scanner :=
  s.unmark?.map fun u =>
    { u.sign t 1 false with marks := if u.inside then u.marks.tail else u.marks }

def comma? (s : Scanner) : Option Scanner := s.unmark?.map fun u => u.sign .comma 1 true

def item? (s : Scanner) : Option Scanner :=
  let opened := s.roll s.place.column s.tokens.size .blockSequence
  if s.inside ∨ s.keyAllowed then opened.unmark?.map fun u => u.sign .entry 1 true else none

def explicitKey? (s : Scanner) : Option Scanner :=
  let opened := s.roll s.place.column s.tokens.size .blockMapping
  if s.inside ∨ s.keyAllowed then opened.unmark?.map fun u => u.sign .key 1 (!s.inside) else none

def value? (s : Scanner) : Option Scanner :=
  match s.marks with
  | some mark :: outer =>
    let keyed := (s.insertAt mark.token .key).roll mark.place.column mark.token .blockMapping
    some { keyed.sign .value 1 false with marks := none :: outer }
  | _ =>
    if s.inside then some (s.sign .value 1 false)
    else if s.keyAllowed then
      some ((s.roll s.place.column s.tokens.size .blockMapping).sign .value 1 true)
    else none

def marker? (s : Scanner) (t : Token) : Option Scanner :=
  (s.unroll (-1)).unmark?.map fun u => u.sign t 3 false

def putScalar? (s : Scanner) (plain : Bool) (scanned : Scanned) : Option Scanner :=
  s.markKey?.map fun u =>
    { u.emit (.scalar scanned.text plain) with
      rest := scanned.rest, place := scanned.place, keyAllowed := plain && scanned.broken }

def quoted? (s : Scanner) (single : Bool) (r : List Char) : Option Scanner :=
  (scanQuoted single false .empty (s.place.next 1) r).bind (s.putScalar? false)

def plain? (s : Scanner) : Option Scanner :=
  (scanPlain s.inside (s.indent + 1) true .empty s.place s.rest).bind (s.putScalar? true)

def isSign (c : Char) : Bool :=
  isBracketSign c || c == '-' || c == '?' || c == ':' || c == '#' || c == '&' || c == '*' ||
    c == '!' || c == '|' || c == '>' || c == '\x27' || c == '\x22' || c == '%' || c == '@' ||
    c.toNat == 0x60

def next? (s : Scanner) : Option Scanner :=
  if s.place.column = 0 ∧ startsMarker s.rest then
    s.marker? (if s.rest.head? = some '-' then .documentStart else .documentEnd)
  else
    match s.rest with
    | [] => none
    | '[' :: _ => s.openBracket? .openSequence
    | '\x7b' :: _ => s.openBracket? .openMapping
    | ']' :: _ => s.closeBracket? .closeSequence
    | '\x7d' :: _ => s.closeBracket? .closeMapping
    | ',' :: _ => s.comma?
    | '\x27' :: r => s.quoted? true r
    | '\x22' :: r => s.quoted? false r
    | '-' :: r => if endsWord r then s.item? else s.plain?
    | '?' :: r => if s.inside ∨ endsWord r then s.explicitKey? else s.plain?
    | ':' :: r => if s.inside ∨ endsWord r then s.value? else s.plain?
    | c :: _ => if isSign c ∨ isBlank c then none else s.plain?

def finish? (s : Scanner) : Option (List Token) :=
  s.unmark?.map fun u => ({ u with marks := [none] }.unroll (-1)).tokens.toList

def run (s : Scanner) : Option (List Token) :=
  match s.toNext.dropStale? with
  | none => none
  | some t =>
    if t.rest = [] then t.finish?
    else
      match (t.unroll t.place.column).next? with
      | none => none
      | some u => if u.rest.length < s.rest.length then u.run else none
termination_by s.rest.length

end Scanner

def tokens? (text : String) : Option (List Token) :=
  if text.toList.all isAllowed then (Scanner.start text.toList).run else none

end UaBridge.Yaml
