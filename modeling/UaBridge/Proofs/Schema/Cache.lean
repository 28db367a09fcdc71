import UaBridge.Proofs.Assoc
import UaBridge.Proofs.Schema.Questions

/-!
A cache in front of a source whose answers do not change. Whatever inquiry is run through it has the
outcome that it has without, and the cache learns the answers to what the inquiry asks. What the
questions that get past the cache do to the source is left to an invariant of the two.
-/

namespace UaBridge

def Resolver.recorded (r : Resolver) : Backend (List Query) where
  definition id s := (r.definition id, s ++ [.definition id])
  supertypes id s := (r.supertypes id, s ++ [.supertypes id])
  note _ s := s

def Resolver.answers (r : Resolver) : Query → Bool
  | .definition id => (r.definition id).isOk
  | .supertypes id => (r.supertypes id).isOk

namespace Cache

def holds (c : Cache) : Query → Bool
  | .definition id => c.definitions.contains id
  | .supertypes id => c.supertypes.contains id

structure Sound (r : Resolver) (c : Cache) : Prop where
  definitions : c.definitions.Remembers r.definition
  supertypes : c.supertypes.Remembers r.supertypes

/-- From `c` to `c'` the answers to these questions have been added, as far as there are any. -/
structure Learns (r : Resolver) (c : Cache) (asked : List Query) (c' : Cache) : Prop where
  sound : c'.Sound r
  holds_iff : ∀ q, c'.holds q = true ↔ c.holds q = true ∨ q ∈ asked ∧ r.answers q = true

variable {r : Resolver} {c c' c'' : Cache} {asked asked' log log' : List Query} {q : Query}

theorem sound_empty : empty.Sound r := ⟨Assoc.remembers_empty, Assoc.remembers_empty⟩

@[simp] theorem holds_empty (q : Query) : empty.holds q = false := by
  cases q <;> rfl

theorem Sound.learns (h : c.Sound r) : Learns r c [] c := ⟨h, by simp⟩

theorem Learns.trans (h : Learns r c asked c') (h' : Learns r c' asked' c'') :
    Learns r c (asked ++ asked') c'' := by
  refine ⟨h'.sound, fun q => ?_⟩
  rw [h'.holds_iff, h.holds_iff, List.mem_append]
  grind

theorem Learns.holds (h : Learns r c asked c') (hq : c.holds q = true) : c'.holds q = true :=
  (h.holds_iff q).2 (.inl hq)

theorem Sound.learns_of_holds (h : c.Sound r) (hq : c.holds q = true) : Learns r c [q] c := by
  refine ⟨h, fun q' => ⟨.inl, ?_⟩⟩
  rintro (hq' | ⟨hq', -⟩)
  · exact hq'
  · rwa [List.mem_singleton.1 hq']

theorem Sound.learns_of_error (h : c.Sound r) (hq : r.answers q = false) : Learns r c [q] c := by
  refine ⟨h, fun q' => ⟨.inl, ?_⟩⟩
  rintro (hq' | ⟨hq', hanswer⟩)
  · exact hq'
  · rw [List.mem_singleton.1 hq', hq] at hanswer
    cases hanswer

theorem Sound.learns_definition {id : NodeId} {d : Definition} (h : c.Sound r)
    (hd : r.definition id = .ok d) :
    Learns r c [.definition id] { c with definitions := c.definitions.insert id d } := by
  refine ⟨⟨h.definitions.insert hd, h.supertypes⟩, fun q => ?_⟩
  cases q with
  | definition id' =>
    simp only [holds, Assoc.contains_insert_iff, List.mem_singleton, Query.definition.injEq,
      or_comm (a := id' = id)]
    refine or_congr_right ⟨fun heq => ⟨heq, ?_⟩, fun h => h.1⟩
    simp [Resolver.answers, heq, hd, Except.isOk, Except.toBool]
  | supertypes id' => simp [holds]

theorem Sound.learns_supertypes {id : NodeId} {chain : List NodeId} (h : c.Sound r)
    (hchain : r.supertypes id = .ok chain) :
    Learns r c [.supertypes id] { c with supertypes := c.supertypes.insert id chain } := by
  refine ⟨⟨h.definitions, h.supertypes.insert hchain⟩, fun q => ?_⟩
  cases q with
  | definition id' => simp [holds]
  | supertypes id' =>
    simp only [holds, Assoc.contains_insert_iff, List.mem_singleton, Query.supertypes.injEq,
      or_comm (a := id' = id)]
    refine or_congr_right ⟨fun heq => ⟨heq, ?_⟩, fun h => h.1⟩
    simp [Resolver.answers, heq, hchain, Except.isOk, Except.toBool]

theorem askDefinition_of_error {id : NodeId} {e : LookupError} (h : r.definition id = .error e) :
    (askDefinition r.recorded id (c, log)).2.1 = c := by
  cases hfound : c.definitions.find? id <;> simp [askDefinition, Resolver.recorded, hfound, h]

theorem askSupertypes_of_error {id : NodeId} {e : LookupError} (h : r.supertypes id = .error e) :
    (askSupertypes r.recorded id (c, log)).2.1 = c := by
  cases hfound : c.supertypes.find? id <;> simp [askSupertypes, Resolver.recorded, hfound, h]

end Cache

/-- The source answers as `r` does where a cache has to ask it, and `I` stays true of the two: of
the source after the answer and the cache that has learned it. -/
structure Backend.Serves {σ : Type} (b : Backend σ) (I : Cache → σ → Prop) (r : Resolver) :
    Prop where
  definition : ∀ id c s, I c s → c.holds (.definition id) = false →
    ∃ t, b.definition id s = (r.definition id, t) ∧
      ∀ c', Cache.Learns r c [.definition id] c' → I c' t
  supertypes : ∀ id c s, I c s → c.holds (.supertypes id) = false →
    ∃ t, b.supertypes id s = (r.supertypes id, t) ∧
      ∀ c', Cache.Learns r c [.supertypes id] c' → I c' t
  note : ∀ n c s, I c s → I c (b.note n s)

namespace Cache
variable {σ : Type} {r : Resolver} {b : Backend σ} {I : Cache → σ → Prop} {c : Cache} {s : σ}

theorem askDefinition_eq (hb : b.Serves I r) (h : c.Sound r) (hs : I c s) (id : NodeId) :
    ∃ c' t, askDefinition b id (c, s) = (r.definition id, c', t) ∧
      Learns r c [.definition id] c' ∧ I c' t := by
  cases hfound : c.definitions.find? id with
  | some d =>
    have hholds : c.holds (.definition id) = true := by simp [holds, Assoc.contains, hfound]
    refine ⟨c, s, ?_, h.learns_of_holds hholds, hs⟩
    simp [askDefinition, hfound, h.definitions id d hfound]
  | none =>
    have hmissed : c.holds (.definition id) = false := Assoc.contains_eq_false_iff.2 hfound
    obtain ⟨t, hask, ht⟩ := hb.definition id c _ (hb.note (.loadingDefinition id) c s hs) hmissed
    cases hd : r.definition id with
    | ok d =>
      have hlearns := h.learns_definition hd
      refine ⟨_, t, ?_, hlearns, ht _ hlearns⟩
      simp [askDefinition, hfound, hask, hd]
    | error e =>
      have hlearns : Learns r c [.definition id] c :=
        h.learns_of_error (by simp [Resolver.answers, hd, Except.isOk, Except.toBool])
      refine ⟨c, t, ?_, hlearns, ht c hlearns⟩
      simp [askDefinition, hfound, hask, hd]

theorem askSupertypes_eq (hb : b.Serves I r) (h : c.Sound r) (hs : I c s) (id : NodeId) :
    ∃ c' t, askSupertypes b id (c, s) = (r.supertypes id, c', t) ∧
      Learns r c [.supertypes id] c' ∧ I c' t := by
  cases hfound : c.supertypes.find? id with
  | some chain =>
    have hholds : c.holds (.supertypes id) = true := by simp [holds, Assoc.contains, hfound]
    refine ⟨c, s, ?_, h.learns_of_holds hholds, hs⟩
    simp [askSupertypes, hfound, h.supertypes id chain hfound]
  | none =>
    have hmissed : c.holds (.supertypes id) = false := Assoc.contains_eq_false_iff.2 hfound
    obtain ⟨t, hask, ht⟩ := hb.supertypes id c _ (hb.note (.loadingSupertypes id) c s hs) hmissed
    cases hchain : r.supertypes id with
    | ok chain =>
      have hlearns := h.learns_supertypes hchain
      refine ⟨_, _, ?_, hlearns, hb.note (.supertypesLoaded id chain.length) _ t (ht _ hlearns)⟩
      simp [askSupertypes, hfound, hask, hchain]
    | error e =>
      have hlearns : Learns r c [.supertypes id] c :=
        h.learns_of_error (by simp [Resolver.answers, hchain, Except.isOk, Except.toBool])
      refine ⟨c, t, ?_, hlearns, ht c hlearns⟩
      simp [askSupertypes, hfound, hask, hchain]

end Cache

/-- An inquiry through a cache has the outcome that the answers of the source determine, and the
cache then holds those it has asked for. -/
theorem Inquiry.run_through {ε α σ : Type} {r : Resolver} {b : Backend σ} {I : Cache → σ → Prop}
    (hb : b.Serves I r) (q : Inquiry ε α) {c : Cache} {s : σ} (h : c.Sound r) (hs : I c s) :
    ∃ c' s', q.run (Cache.through b) (c, s) = (q.eval r, c', s') ∧
      Cache.Learns r c (q.asked r) c' ∧ I c' s' := by
  induction q generalizing c s with
  | done a => exact ⟨c, s, rfl, h.learns, hs⟩
  | fail e => exact ⟨c, s, rfl, h.learns, hs⟩
  | definition id next ih =>
    obtain ⟨c', s', hask, hlearns, hs'⟩ := Cache.askDefinition_eq hb h hs id
    obtain ⟨c'', s'', hrun, hlearns', hs''⟩ := ih (r.definition id) hlearns.sound hs'
    refine ⟨c'', s'', ?_, hlearns.trans hlearns', hs''⟩
    simp only [run, Cache.through, hask]
    exact hrun
  | supertypes id next ih =>
    obtain ⟨c', s', hask, hlearns, hs'⟩ := Cache.askSupertypes_eq hb h hs id
    obtain ⟨c'', s'', hrun, hlearns', hs''⟩ := ih (r.supertypes id) hlearns.sound hs'
    refine ⟨c'', s'', ?_, hlearns.trans hlearns', hs''⟩
    simp only [run, Cache.through, hask]
    exact hrun
  | note n next ih => exact ih h (hb.note n c s hs)

namespace Cache
variable {r : Resolver} {c c' : Cache} {log log' : List Query} {q : Query}

/-- Since `log` no question has been answered twice, as the cache holds what has been answered. -/
def AsksOnce (r : Resolver) (log : List Query) (c : Cache) (log' : List Query) : Prop :=
  ∃ asked, log' = log ++ asked ∧ (asked.filter r.answers).Nodup ∧
    ∀ q ∈ asked.filter r.answers, c.holds q = true

theorem asksOnce_self (r : Resolver) (c : Cache) (log : List Query) : AsksOnce r log c log :=
  ⟨[], (List.append_nil log).symm, .nil, by simp⟩

theorem AsksOnce.snoc (h : AsksOnce r log c log') (hmissed : c.holds q = false)
    (hlearns : Learns r c [q] c') : AsksOnce r log c' (log' ++ [q]) := by
  obtain ⟨asked, rfl, hnodup, hheld⟩ := h
  have hfresh : q ∉ asked.filter r.answers := fun hq => by
    rw [hheld q hq] at hmissed
    cases hmissed
  refine ⟨asked ++ [q], List.append_assoc .., ?_, ?_⟩
  · rw [List.filter_append, List.nodup_append]
    refine ⟨hnodup, .sublist List.filter_sublist (by simp), ?_⟩
    rintro q' hq' _ hq rfl
    rw [List.mem_singleton.1 (List.mem_filter.1 hq).1] at hq'
    exact hfresh hq'
  · intro q' hq'
    rw [List.filter_append, List.mem_append] at hq'
    obtain hq' | hq' := hq'
    · exact hlearns.holds (hheld q' hq')
    · exact (hlearns.holds_iff q').2 (.inr (List.mem_filter.1 hq'))

end Cache

theorem Resolver.recorded_serves (r : Resolver) : r.recorded.Serves (fun _ _ => True) r where
  definition _ _ _ _ _ := ⟨_, rfl, fun _ _ => trivial⟩
  supertypes _ _ _ _ _ := ⟨_, rfl, fun _ _ => trivial⟩
  note _ _ _ _ := trivial

theorem Resolver.recorded_asksOnce (r : Resolver) (log : List Query) :
    r.recorded.Serves (Cache.AsksOnce r log) r where
  definition _ _ _ h hmissed := ⟨_, rfl, fun _ hlearns => h.snoc hmissed hlearns⟩
  supertypes _ _ _ h hmissed := ⟨_, rfl, fun _ hlearns => h.snoc hmissed hlearns⟩
  note _ _ _ h := h

end UaBridge
