import UaBridge.Proofs.Bridge.Typing
import UaBridge.Proofs.Schema.Cache

namespace UaBridge

/-- What a cache can be used for. Everything behind a type is asked for at most `known` types
deep. -/
inductive Operation where
  | definition (type : NodeId)
  | supertypes (type : NodeId)
  | preload (known : Nat) (type : NodeId)
  | clear
  | decode (s : Settings) (v : Variant) (type : NodeId)
  | encode (s : Settings) (d : Plant.Datum) (type : NodeId)
  | toReading (s : Settings) (v : DataValue)
  | toDataValue (s : Settings) (point : Plant.Reading) (type : NodeId)
  | batch (s : Settings) (dateTime : Int64) (values : List DataValue)

inductive Outcome where
  | definition (answer : Except LookupError Definition)
  | supertypes (answer : Except LookupError (List NodeId))
  | preload (answer : Except LookupError Unit)
  | clear
  | decode (result : Except Failure Plant.Datum)
  | encode (result : Except Failure Variant)
  | toReading (result : Except Failure Plant.Reading)
  | toDataValue (result : Except Failure DataValue)
  | batch (result : Except Failure Plant.Event)

namespace Operation
variable {σ : Type}

def direct (r : Resolver) : Operation → Outcome
  | definition type => .definition (r.definition type)
  | supertypes type => .supertypes (r.supertypes type)
  | preload known type => .preload ((Preload.all known type).eval r)
  | clear => .clear
  | decode s v type => .decode ((v.decode s type).eval r)
  | encode s d type => .encode ((d.encode s type).eval r)
  | toReading s v => .toReading ((v.toReading s).eval r)
  | toDataValue s point type => .toDataValue ((point.toDataValue s type).eval r)
  | batch s dateTime values => .batch ((Plant.Event.ofDataValues s dateTime values).eval r)

def run (b : Backend σ) (op : Operation) (state : Cache × σ) : Outcome × (Cache × σ) :=
  match op with
  | definition type => ((Cache.through b).definition type state).map .definition id
  | supertypes type => ((Cache.through b).supertypes type state).map .supertypes id
  | preload known type => ((Preload.all known type).run (Cache.through b) state).map .preload id
  | clear => (.clear, .empty, state.2)
  | decode s v type => ((v.decode s type).run (Cache.through b) state).map .decode id
  | encode s d type => ((d.encode s type).run (Cache.through b) state).map .encode id
  | toReading s v => ((v.toReading s).run (Cache.through b) state).map .toReading id
  | toDataValue s point type =>
    ((point.toDataValue s type).run (Cache.through b) state).map .toDataValue id
  | batch s dateTime values =>
    ((Plant.Event.ofDataValues s dateTime values).run (Cache.through b) state).map .batch id

def runAll (b : Backend σ) : List Operation → Cache × σ → List Outcome × (Cache × σ)
  | [], state => ([], state)
  | op :: ops, state =>
    let (outcome, state) := op.run b state
    let (outcomes, state) := runAll b ops state
    (outcome :: outcomes, state)

theorem runAll_append (b : Backend σ) (ops ops' : List Operation) (state : Cache × σ) :
    runAll b (ops ++ ops') state =
      ((runAll b ops state).1 ++ (runAll b ops' (runAll b ops state).2).1,
        (runAll b ops' (runAll b ops state).2).2) := by
  induction ops generalizing state with
  | nil => rfl
  | cons op ops ih => simp [runAll, ih]

variable {r : Resolver} {c : Cache}

theorem run_of_inquiry {b : Backend σ} {s : Cache × σ} {T : Cache × σ → Prop} (op : Operation)
    (hop : op ≠ .clear) (hrun : ∀ {ε α : Type} (q : Inquiry ε α),
      ∃ t, q.run (Cache.through b) s = (q.eval r, t) ∧ T t) :
    ∃ t, op.run b s = (op.direct r, t) ∧ T t := by
  have hlabel {ε α : Type} (q : Inquiry ε α) (label : Except ε α → Outcome) :
      ∃ t, (q.run (Cache.through b) s).map label id = (label (q.eval r), t) ∧ T t := by
    obtain ⟨t, heq, ht⟩ := hrun q
    exact ⟨t, by rw [heq]; rfl, ht⟩
  cases op with
  | definition type =>
    obtain ⟨t, heq, ht⟩ := hlabel (.definition type .ofExcept) .definition
    refine ⟨t, ?_, ht⟩
    simp only [Inquiry.run, Inquiry.run_ofExcept, Inquiry.eval, Inquiry.eval_ofExcept] at heq
    exact heq
  | supertypes type =>
    obtain ⟨t, heq, ht⟩ := hlabel (.supertypes type .ofExcept) .supertypes
    refine ⟨t, ?_, ht⟩
    simp only [Inquiry.run, Inquiry.run_ofExcept, Inquiry.eval, Inquiry.eval_ofExcept] at heq
    exact heq
  | preload known type => exact hlabel (Preload.all known type) .preload
  | clear => exact absurd rfl hop
  | decode s v type => exact hlabel (v.decode s type) .decode
  | encode s d type => exact hlabel (d.encode s type) .encode
  | toReading s v => exact hlabel (v.toReading s) .toReading
  | toDataValue s point type => exact hlabel (point.toDataValue s type) .toDataValue
  | batch s dateTime values => exact hlabel (Plant.Event.ofDataValues s dateTime values) .batch

theorem runAll_of_run {b : Backend σ} {T : Cache × σ → Prop} {s : Cache × σ} (ops : List Operation)
    (hrun : ∀ op ∈ ops, ∀ s, T s → ∃ t, op.run b s = (op.direct r, t) ∧ T t) (hs : T s) :
    ∃ t, runAll b ops s = (ops.map (direct r), t) ∧ T t := by
  induction ops generalizing s with
  | nil => exact ⟨s, rfl, hs⟩
  | cons op ops ih =>
    rw [List.forall_mem_cons] at hrun
    obtain ⟨t, heq, ht⟩ := hrun.1 s hs
    obtain ⟨t', heq', ht'⟩ := ih hrun.2 ht
    exact ⟨t', by simp [runAll, heq, heq'], ht'⟩

section serves
variable {b : Backend σ} {s : σ}

theorem run_learns {I : Cache → σ → Prop} (hb : b.Serves I r) (op : Operation) (hop : op ≠ .clear)
    (h : c.Sound r) (hs : I c s) :
    ∃ t, op.run b (c, s) = (op.direct r, t) ∧ ∃ asked, Cache.Learns r c asked t.1 ∧ I t.1 t.2 := by
  refine op.run_of_inquiry hop fun q => ?_
  obtain ⟨c', s', hrun, hlearns, hs'⟩ := q.run_through hb h hs
  exact ⟨(c', s'), hrun, _, hlearns, hs'⟩

theorem runAll_learns {I : Cache → σ → Prop} (hb : b.Serves I r) (ops : List Operation)
    (hops : ∀ op ∈ ops, op ≠ .clear) (h : c.Sound r) (hs : I c s) :
    ∃ t, runAll b ops (c, s) = (ops.map (direct r), t) ∧
      ∃ asked, Cache.Learns r c asked t.1 ∧ I t.1 t.2 := by
  refine runAll_of_run ops ?_ ⟨[], h.learns, hs⟩
  rintro op hop s ⟨asked, hlearns, hs⟩
  obtain ⟨t, hrun, asked', hlearns', ht⟩ := op.run_learns hb (hops op hop) hlearns.sound hs
  exact ⟨t, hrun, asked ++ asked', hlearns.trans hlearns', ht⟩

theorem runAll_keeps_sound {I : σ → Prop} (hb : b.Serves (fun _ => I) r) (ops : List Operation)
    (h : c.Sound r) (hs : I s) :
    ∃ t, runAll b ops (c, s) = (ops.map (direct r), t) ∧ t.1.Sound r ∧ I t.2 := by
  refine runAll_of_run ops ?_ ⟨h, hs⟩
  rintro op - s ⟨h, hs⟩
  by_cases hop : op = .clear
  · subst hop
    exact ⟨(.empty, s.2), rfl, Cache.sound_empty, hs⟩
  · obtain ⟨t, hrun, asked, hlearns, ht⟩ := op.run_learns hb hop h hs
    exact ⟨t, hrun, hlearns.sound, ht⟩

end serves

theorem sound_of_runAll (ops : List Operation) (h : c.Sound r) (log : List Query) :
    (runAll r.recorded ops (c, log)).1 = ops.map (direct r) ∧
      (runAll r.recorded ops (c, log)).2.1.Sound r := by
  obtain ⟨t, hrun, hsound, -⟩ :=
    runAll_keeps_sound (I := fun _ => True) r.recorded_serves ops h trivial
  rw [hrun]
  exact ⟨rfl, hsound⟩

end Operation

/-- A session that begins with an empty cache: the outcomes, the cache, and what the source has been
asked. -/
def Operation.session (r : Resolver) (ops : List Operation) :
    List Outcome × (Cache × List Query) :=
  runAll r.recorded ops (.empty, [])

/-- Whatever is done with a cache and a source, the cache cannot be told from the source: all
outcomes are direct, what is held are answers, failed lookups leave no trace, and while the cache is
not cleared no question is answered twice. -/
theorem Cache.transparent (r : Resolver) (ops : List Operation) :
    (Operation.session r ops).1 = ops.map (Operation.direct r) ∧
      (Operation.session r ops).2.1.Sound r ∧
      (∀ id e, r.definition id = .error e →
        (askDefinition r.recorded id (Operation.session r ops).2).2.1 =
          (Operation.session r ops).2.1) ∧
      (∀ id e, r.supertypes id = .error e →
        (askSupertypes r.recorded id (Operation.session r ops).2).2.1 =
          (Operation.session r ops).2.1) ∧
      ∀ before segment, ops = before ++ segment → (∀ op ∈ segment, op ≠ .clear) →
        ∃ asked, (Operation.session r ops).2.2 = (Operation.session r before).2.2 ++ asked ∧
          (asked.filter r.answers).Nodup := by
  obtain ⟨houtcomes, hsound⟩ := Operation.sound_of_runAll ops (sound_empty (r := r)) []
  refine ⟨houtcomes, hsound, fun id e => askDefinition_of_error,
    fun id e => askSupertypes_of_error, ?_⟩
  rintro before segment rfl hsegment
  obtain ⟨-, hbefore⟩ := Operation.sound_of_runAll before (sound_empty (r := r)) []
  obtain ⟨t, hrun, -, -, asked, hasked, hnodup, -⟩ := Operation.runAll_learns
    (r.recorded_asksOnce (Operation.session r before).2.2) segment hsegment hbefore
    (asksOnce_self r _ _)
  refine ⟨asked, ?_, hnodup⟩
  rw [Operation.session, Operation.runAll_append, ← hasked]
  exact congrArg (fun p => p.2.2) hrun

def Tank.operations : List Operation :=
  [.decode .standard value tank, .supertypes (.string 1 "Pump"), .decode .standard value tank, .clear,
    .preload 2 tank]

def Tank.questions : List Query :=
  [.supertypes tank, .definition tank, .definition vessel, .supertypes vessel]

theorem Cache.transparent_tank :
    (Operation.session Tank.types Tank.operations).1 =
        [.decode (.ok Tank.image), .supertypes (.error (.unknownType (.string 1 "Pump"))),
          .decode (.ok Tank.image), .clear, .preload (.ok ())] ∧
      (Operation.session Tank.types Tank.operations).2.1.Sound Tank.types ∧
      (Operation.session Tank.types Tank.operations).2.2 =
        Tank.questions ++ [.supertypes (.string 1 "Pump")] ++ Tank.questions ∧
      (Tank.questions.filter Tank.types.answers).Nodup := by
  obtain ⟨houtcomes, hsound, -, -, honce⟩ := Cache.transparent Tank.types Tank.operations
  have hbefore : (Operation.session Tank.types (Tank.operations.take 4)).2.2 =
      Tank.questions ++ [.supertypes (.string 1 "Pump")] := by cbv
  have hcalls : (Operation.session Tank.types Tank.operations).2.2 =
      Tank.questions ++ [.supertypes (.string 1 "Pump")] ++ Tank.questions := by cbv
  refine ⟨houtcomes.trans (by cbv), hsound, hcalls, ?_⟩
  obtain ⟨asked, hasked, hnodup⟩ :=
    honce (Tank.operations.take 4) [.preload 2 Tank.tank] rfl (by simp)
  rw [hbefore] at hasked
  rwa [List.append_cancel_left (hcalls.symm.trans hasked)]

end UaBridge
