namespace UaBridge

@[ext] structure Assoc (κ ν : Type) where
  entries : List (κ × ν)
  distinct : entries.Pairwise (·.1 ≠ ·.1)

namespace Assoc
variable {κ ν : Type} [DecidableEq κ]

def empty : Assoc κ ν := ⟨[], .nil⟩

def find? (m : Assoc κ ν) (k : κ) : Option ν := (m.entries.find? (·.1 = k)).map (·.2)

def contains (m : Assoc κ ν) (k : κ) : Bool := (m.find? k).isSome

def keys (m : Assoc κ ν) : List κ := m.entries.map (·.1)

def size (m : Assoc κ ν) : Nat := m.entries.length

theorem contains_of_mem_entries {m : Assoc κ ν} {e : κ × ν} (h : e ∈ m.entries) :
    m.contains e.1 = true := by
  rw [contains, find?, Option.isSome_map, List.find?_isSome]
  exact ⟨e, h, by simp⟩

def insert (m : Assoc κ ν) (k : κ) (v : ν) : Assoc κ ν where
  entries := (k, v) :: m.entries.filter fun e => ¬e.1 = k
  distinct := by
    refine .cons (fun e he => Ne.symm ?_) (m.distinct.filter _)
    simpa using (List.mem_filter.1 he).2

/-- All entries of both maps; where both have a key, that of `n`. -/
def merge (m n : Assoc κ ν) : Assoc κ ν where
  entries := n.entries ++ m.entries.filter fun e => ¬n.contains e.1
  distinct := by
    refine List.pairwise_append.2 ⟨n.distinct, m.distinct.filter _, fun e he e' he' heq => ?_⟩
    have hfresh : n.contains e'.1 = false := by simpa using (List.mem_filter.1 he').2
    rw [← heq, contains_of_mem_entries he] at hfresh
    cases hfresh

def ofList (l : List (κ × ν)) : Assoc κ ν := l.foldl (fun m e => m.insert e.1 e.2) empty

end Assoc
end UaBridge
