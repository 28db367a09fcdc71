import UaBridge.Proofs.Schema.Cache
import UaBridge.Proofs.Schema.Registry
import UaBridge.Proofs.Schema.Search

namespace UaBridge

theorem Resolver.Loads.answers {r : Resolver} {type : NodeId} {q : Query} (h : r.Loads type)
    (hq : r.Needs type q) : r.answers q = true := by
  cases hq with
  | supertypes =>
    have hends : ∃ kind, r.EndsIn type kind := by
      cases h with
      | value hends => exact ⟨_, hends⟩
      | structured hends => exact ⟨_, hends⟩
    obtain ⟨kind, chain, base, hchain, -⟩ := hends
    simp [Resolver.answers, hchain, Except.isOk, Except.toBool]
  | definition hends ha =>
    cases h with
    | value hvalue => cases hends.unique hvalue
    | structured _ hdefines =>
      obtain ⟨d, hd⟩ := hdefines _ ha
      simp [Resolver.answers, hd, Except.isOk, Except.toBool]

structure Source.Offers (g : Registry) (s : Source) : Prop where
  registry : s.registry = g
  outage : s.outage = none

theorem Source.serves (g : Registry) : backend.Serves (fun _ => Offers g) g.resolver where
  definition id _ s h _ :=
    ⟨{ s with calls := s.calls ++ [.definition id] },
      by simp [backend, answer, h.outage, h.registry, Registry.resolver],
      fun _ _ => ⟨h.registry, h.outage⟩⟩
  supertypes id _ s h _ :=
    ⟨{ s with calls := s.calls ++ [.supertypes id] },
      by simp [backend, answer, h.outage, h.registry, Registry.resolver],
      fun _ _ => ⟨h.registry, h.outage⟩⟩
  note _ _ _ h := ⟨h.registry, h.outage⟩

/-- The cache answers all that the inquiry asks, as `r` does: whatever source is behind it gets no
question, only notes, and these are the same for every source. -/
def Cache.Suffices {ε α : Type} (c : Cache) (r : Resolver) (q : Inquiry ε α) : Prop :=
  ∃ notes : List Note, ∀ {σ : Type} (b : Backend σ) (s : σ),
    q.run (through b) (c, s) = (q.eval r, c, notes.foldl (fun s n => b.note n s) s)

theorem Cache.Sound.suffices {ε α : Type} {r : Resolver} {c : Cache} {q : Inquiry ε α}
    (h : c.Sound r) (hq : q.AsksOnly r fun x => c.holds x = true) : c.Suffices r q := by
  induction q with
  | done a => exact ⟨[], fun b s => rfl⟩
  | fail e => exact ⟨[], fun b s => rfl⟩
  | definition id next ih =>
    obtain ⟨hid, hnext⟩ := List.forall_mem_cons.1 hq
    obtain ⟨d, hd⟩ := Option.isSome_iff_exists.1 hid
    obtain ⟨notes, hnotes⟩ := ih _ hnext
    refine ⟨notes, fun b s => ?_⟩
    rw [h.definitions id d hd] at hnotes
    have hask : (through b).definition id (c, s) = (.ok d, c, s) := by
      simp [through, Cache.askDefinition, hd]
    simp only [Inquiry.run, Inquiry.eval, hask, h.definitions id d hd]
    exact hnotes b s
  | supertypes id next ih =>
    obtain ⟨hid, hnext⟩ := List.forall_mem_cons.1 hq
    obtain ⟨chain, hchain⟩ := Option.isSome_iff_exists.1 hid
    obtain ⟨notes, hnotes⟩ := ih _ hnext
    refine ⟨notes, fun b s => ?_⟩
    rw [h.supertypes id chain hchain] at hnotes
    have hask : (through b).supertypes id (c, s) = (.ok chain, c, s) := by
      simp [through, Cache.askSupertypes, hchain]
    simp only [Inquiry.run, Inquiry.eval, hask, h.supertypes id chain hchain]
    exact hnotes b s
  | note n next ih =>
    obtain ⟨notes, hnotes⟩ := ih hq
    exact ⟨n :: notes, fun b s => hnotes b (b.note n s)⟩

section preload
variable {g : Registry} {c : Cache} {s : Source} {type : NodeId}

theorem preload_eq (h : c.Sound g.resolver) (hs : s.Offers g) (type : NodeId) :
    ∃ known c' s', g.ids.length ≤ known ∧
      preload type (c, s) = ((Preload.all known type).eval g.resolver, c', s') ∧
      Cache.Learns g.resolver c ((Preload.all known type).asked g.resolver) c' ∧ s'.Offers g := by
  have hknown : g.ids.length ≤ s.registry.known + c.supertypes.size := by
    rw [g.length_ids, hs.registry]
    exact Nat.le_add_right _ _
  obtain ⟨c', s', hrun, hlearns, hs'⟩ := Inquiry.run_through (Source.serves g)
    (Preload.all (s.registry.known + c.supertypes.size) type) h hs
  exact ⟨_, c', s', hknown, hrun, hlearns, hs'⟩

theorem preload_eq_ok_iff (h : c.Sound g.resolver) (hs : s.Offers g) :
    (preload type (c, s)).1 = .ok () ↔
      ∀ t, g.resolver.Behind type t → g.resolver.Loads t := by
  obtain ⟨known, c', s', hknown, hrun, -⟩ := preload_eq h hs type
  rw [hrun]
  exact Preload.all_eval_eq_ok_iff (fun _ _ => Registry.mem_ids_of_supertypes) hknown type

theorem holds_preload_iff (h : c.Sound g.resolver) (hs : s.Offers g)
    (hok : (preload type (c, s)).1 = .ok ()) (q : Query) :
    (preload type (c, s)).2.1.holds q = true ↔
      c.holds q = true ∨ ∃ t, g.resolver.Behind type t ∧ g.resolver.Needs t q := by
  have hloads := (preload_eq_ok_iff h hs).1 hok
  obtain ⟨known, c', s', hknown, hrun, hlearns, -⟩ := preload_eq h hs type
  rw [hrun] at hok ⊢
  rw [hlearns.holds_iff,
    Preload.mem_asked_all_iff (fun _ _ => Registry.mem_ids_of_supertypes) hknown hok]
  refine or_congr_right ⟨fun hneeds => hneeds.1, fun hneeds => ⟨hneeds, ?_⟩⟩
  obtain ⟨t, hbehind, hneeds⟩ := hneeds
  exact (hloads t hbehind).answers hneeds

end preload

/-- A preload with an empty cache is a search that ends, though types may have fields of each other
and parents in a circle. It succeeds exactly if everything is known about each type behind `type`,
and the cache then holds what these types need, and nothing else: the supertypes of each, and the
definitions of the structured ones and of their ancestors. -/
theorem preload_empty (g : Registry) (type : NodeId) (calls : List Query) (journal : List Note) :
    let result := preload type (.empty, ⟨g, none, calls, journal⟩)
    (∃ log x, Preload.Visits g.resolver [] [type] log x ∧
      (∀ log' x', Preload.Visits g.resolver [] [type] log' x' → log' = log ∧ x' = x) ∧
      result.1 = x.map fun _ => ()) ∧
    (result.1 = .ok () ↔ ∀ t, g.resolver.Behind type t → g.resolver.Loads t) ∧
    (result.1 = .ok () →
      (∀ t, result.2.1.supertypes.contains t = true ↔ g.resolver.Behind type t) ∧
      ∀ a, result.2.1.definitions.contains a = true ↔
        ∃ t shape, g.resolver.Behind type t ∧ g.resolver.EndsIn t (.structured shape) ∧
          a ∈ t :: g.resolver.ancestors t) := by
  intro result
  have hsound : Cache.empty.Sound g.resolver := Cache.sound_empty
  have hoffers : Source.Offers g ⟨g, none, calls, journal⟩ := ⟨rfl, rfl⟩
  refine ⟨?_, preload_eq_ok_iff hsound hoffers, fun hok => ?_⟩
  · obtain ⟨known, c', s', hknown, hrun, -⟩ := preload_eq hsound hoffers type
    obtain ⟨x, hvisits, heval⟩ := Preload.visits_all (r := g.resolver)
      (fun _ _ => Registry.mem_ids_of_supertypes) hknown type
    refine ⟨_, x, hvisits, fun log' x' hvisits' => hvisits'.unique hvisits, ?_⟩
    exact (congrArg Prod.fst hrun).trans heval
  · have hholds (q : Query) : result.2.1.holds q = true ↔
        ∃ t, g.resolver.Behind type t ∧ g.resolver.Needs t q := by
      simpa using holds_preload_iff hsound hoffers hok q
    constructor
    · intro t
      exact (hholds (.supertypes t)).trans (by simp [Resolver.needs_supertypes_iff])
    · intro a
      exact (hholds (.definition a)).trans (by simp [Resolver.needs_definition_iff])

namespace Motor

def motor : NodeId := .string 2 "Motor"

def runtime : NodeId := .numeric 2 7

def mode : NodeId := .numeric 2 8

def registry : Registry :=
  ((((Registry.empty.register ⟨motor, "Motor", .record,
    [⟨"next", motor, false, true⟩, ⟨"runtime", runtime, false, false⟩,
      ⟨"mode", mode, false, false⟩]⟩).registerSubtype motor .structureType).registerSubtype
        runtime .durationType).registerSubtype mode .enumerationType)

end Motor

theorem preload_empty_motor :
    (preload Motor.motor (.empty, ⟨Motor.registry, none, [], []⟩)).1 = .ok () ∧
      (∀ t, Motor.registry.resolver.Behind Motor.motor t ↔
        t ∈ [Motor.mode, Motor.runtime, Motor.motor]) ∧
      ∀ a, (∃ t shape, Motor.registry.resolver.Behind Motor.motor t ∧
        Motor.registry.resolver.EndsIn t (.structured shape) ∧
          a ∈ t :: Motor.registry.resolver.ancestors t) ↔ a ∈ [Motor.motor] := by
  have hok : (preload Motor.motor (.empty, ⟨Motor.registry, none, [], []⟩)).1 = .ok () := rfl
  obtain ⟨hsupertypes, hdefinitions⟩ := (preload_empty Motor.registry Motor.motor [] []).2.2 hok
  refine ⟨hok, fun t => ?_, fun a => ?_⟩
  · rw [← hsupertypes, Assoc.contains_iff_mem_keys]
    have hkeys : (preload Motor.motor (.empty, ⟨Motor.registry, none, [], []⟩)).2.1.supertypes.keys =
        [Motor.mode, Motor.runtime, Motor.motor] := rfl
    rw [hkeys]
  · rw [← hdefinitions, Assoc.contains_iff_mem_keys]
    have hkeys : (preload Motor.motor (.empty, ⟨Motor.registry, none, [], []⟩)).2.1.definitions.keys =
        [Motor.motor] := rfl
    rw [hkeys]

end UaBridge
