import UaBridge.Journal
import UaBridge.Schema.Definition

/-!
Computations that consult a type source. An inquiry is the tree of its questions: it is evaluated
against fixed answers, or run against a source with a state of its own.
-/

namespace UaBridge

/-- A type source whose answers are fixed. -/
structure Resolver where
  definition : NodeId → Except LookupError Definition
  /-- Immediate parent first, the root of namespace 0 last. -/
  supertypes : NodeId → Except LookupError (List NodeId)

inductive Inquiry (ε α : Type) where
  | done (a : α)
  | fail (e : ε)
  | definition (id : NodeId) (next : Except LookupError Definition → Inquiry ε α)
  | supertypes (id : NodeId) (next : Except LookupError (List NodeId) → Inquiry ε α)
  | note (n : Note) (next : Inquiry ε α)

/-- A type source that keeps a state and takes notes. -/
structure Backend (σ : Type) where
  definition : NodeId → σ → Except LookupError Definition × σ
  supertypes : NodeId → σ → Except LookupError (List NodeId) × σ
  note : Note → σ → σ

namespace Inquiry
variable {ε ε' α β σ : Type}

def bind : Inquiry ε α → (α → Inquiry ε β) → Inquiry ε β
  | done a, f => f a
  | fail e, _ => fail e
  | definition id next, f => definition id fun answer => (next answer).bind f
  | supertypes id next, f => supertypes id fun answer => (next answer).bind f
  | note n next, f => note n (next.bind f)

instance : Monad (Inquiry ε) where
  pure := done
  bind := bind

def mapFailure (f : ε → ε') : Inquiry ε α → Inquiry ε' α
  | done a => done a
  | fail e => fail (f e)
  | definition id next => definition id fun answer => (next answer).mapFailure f
  | supertypes id next => supertypes id fun answer => (next answer).mapFailure f
  | note n next => note n (next.mapFailure f)

def ofExcept : Except ε α → Inquiry ε α
  | .ok a => done a
  | .error e => fail e

def askDefinition (refused : LookupError → ε) (id : NodeId) : Inquiry ε Definition :=
  definition id fun
    | .ok d => done d
    | .error e => fail (refused e)

def askSupertypes (refused : LookupError → ε) (id : NodeId) : Inquiry ε (List NodeId) :=
  supertypes id fun
    | .ok chain => done chain
    | .error e => fail (refused e)

def report (n : Note) : Inquiry ε Unit := note n (done ())

def within (step : Step) (q : Inquiry Failure α) : Inquiry Failure α := q.mapFailure (·.within step)

def eachIndexed (f : α → Inquiry Failure β) (l : List α) : Inquiry Failure (List β) :=
  l.zipIdx.mapM fun p => (f p.1).within (.index p.2)

def eval (r : Resolver) : Inquiry ε α → Except ε α
  | done a => .ok a
  | fail e => .error e
  | definition id next => (next (r.definition id)).eval r
  | supertypes id next => (next (r.supertypes id)).eval r
  | note _ next => next.eval r

def run (b : Backend σ) : Inquiry ε α → σ → Except ε α × σ
  | done a, s => (.ok a, s)
  | fail e, s => (.error e, s)
  | definition id next, s => let (answer, s) := b.definition id s; (next answer).run b s
  | supertypes id next, s => let (answer, s) := b.supertypes id s; (next answer).run b s
  | note n next, s => next.run b (b.note n s)

end Inquiry

def Resolver.journaled (r : Resolver) : Backend (List Note) where
  definition id s := (r.definition id, s)
  supertypes id s := (r.supertypes id, s)
  note n s := s ++ [n]

end UaBridge
