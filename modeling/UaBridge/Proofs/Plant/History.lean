import Mathlib.Data.List.Nodup
import UaBridge.Proofs.Plant.Record

namespace UaBridge.Plant.Record

def append (name : String) (value : Datum) : EStateM Failure Record Unit := fun r =>
  match r.push name value with
  | .ok r' => .ok () r'
  | .error e => .error e r

/-- Appends a field to a copy, which takes the place of the record if that works. -/
def appendToCopy (name : String) (value : Datum) : EStateM Failure Record Unit := do
  match (append name value).run (← get) with
  | .ok _ r' => set r'
  | .error e _ => throw e

inductive Call
  | inPlace (name : String) (value : Datum)
  | onCopy (name : String) (value : Datum)

namespace Call

def name : Call → String
  | inPlace name _ | onCopy name _ => name

def value : Call → Datum
  | inPlace _ value | onCopy _ value => value

def field (c : Call) : String × Datum := (c.name, c.value)

def act : Call → EStateM Failure Record Unit
  | inPlace name value => append name value
  | onCopy name value => appendToCopy name value

/-- The record that the call leaves, also where it fails. -/
def after (r : Record) (c : Call) : Record :=
  match c.act.run r with
  | .ok _ r' | .error _ r' => r'

end Call

def after (r : Record) (calls : List Call) : Record := calls.foldl Call.after r

def Appended (type : Address) (calls : List Call) (name : String) : Prop :=
  ∃ before c later, calls = before ++ c :: later ∧ c.name = name ∧
    ∃ r, c.act.run ((empty type).after before) = .ok () r

variable {r r' : Record} {c : Call} {calls : List Call} {name : String} {value : Datum}
  {type : Address} {e : Failure} {taken : List String} {f : String × Datum}
  {fields : List (String × Datum)}

theorem run_append : (append name value).run r =
    if name ∈ r.fields.map (·.1) then .error (.of (.duplicateField name r.type)) r
    else .ok () { r with fields := r.fields ++ [(name, value)] } := by
  simp only [EStateM.run, append, push, ← isSome_field?_iff]
  cases (r.field? name).isSome <;> rfl

theorem run_appendToCopy : (appendToCopy name value).run r = (append name value).run r := by
  simp only [appendToCopy, EStateM.run_bind, EStateM.run_get, run_append]
  by_cases h : name ∈ r.fields.map (·.1)
  · simp only [if_pos h]
    rfl
  · simp only [if_neg h]
    rfl

namespace Call

theorem run_act : c.act.run r =
    if c.name ∈ r.fields.map (·.1) then .error (.of (.duplicateField c.name r.type)) r
    else .ok () { r with fields := r.fields ++ [c.field] } := by
  cases c with
  | inPlace name value => exact run_append
  | onCopy name value => exact run_appendToCopy.trans run_append

theorem run_act_eq_error_iff : c.act.run r = .error e r' ↔
    c.name ∈ r.fields.map (·.1) ∧ .of (.duplicateField c.name r.type) = e ∧ r = r' := by
  rw [run_act]
  split <;> simp [*]

theorem run_act_eq_ok_iff : c.act.run r = .ok () r' ↔
    c.name ∉ r.fields.map (·.1) ∧ { r with fields := r.fields ++ [c.field] } = r' := by
  rw [run_act]
  split <;> simp [*]

theorem after_of_mem (h : c.name ∈ r.fields.map (·.1)) : c.after r = r := by
  rw [after, run_act, if_pos h]

theorem after_of_not_mem (h : c.name ∉ r.fields.map (·.1)) :
    c.after r = { r with fields := r.fields ++ [c.field] } := by
  rw [after, run_act, if_neg h]

theorem type_after : (c.after r).type = r.type := by
  by_cases h : c.name ∈ r.fields.map (·.1)
  · rw [after_of_mem h]
  · rw [after_of_not_mem h]

theorem nodup_after (h : (r.fields.map (·.1)).Nodup) : ((c.after r).fields.map (·.1)).Nodup := by
  by_cases hc : c.name ∈ r.fields.map (·.1)
  · rwa [after_of_mem hc]
  · rw [after_of_not_mem hc, List.map_append]
    exact List.Nodup.append h (List.nodup_singleton _) (List.disjoint_singleton.2 hc)

theorem field?_after : (c.after r).field? name =
    (r.field? name).or (if c.name = name then some c.value else none) := by
  by_cases hc : c.name ∈ r.fields.map (·.1)
  · rw [after_of_mem hc]
    split
    next hname =>
      obtain ⟨v, hv⟩ := Option.isSome_iff_exists.1 (isSome_field?_iff.2 (hname ▸ hc))
      rw [hv, Option.some_or]
    next => rw [Option.or_none]
  · rw [after_of_not_mem hc, field?, List.find?_append, Option.map_or]
    congr 1
    by_cases hname : c.name = name <;> simp [field, hname]

end Call

theorem type_after : (r.after calls).type = r.type := by
  induction calls generalizing r with
  | nil => rfl
  | cons c calls ih => exact ih.trans Call.type_after

theorem nodup_after (h : (r.fields.map (·.1)).Nodup) :
    ((r.after calls).fields.map (·.1)).Nodup := by
  induction calls generalizing r with
  | nil => exact h
  | cons c calls ih => exact ih (Call.nodup_after h)

theorem field?_after : (r.after calls).field? name =
    (r.field? name).or ((calls.find? (·.name = name)).map Call.value) := by
  induction calls generalizing r with
  | nil => exact Option.or_none.symm
  | cons c calls ih =>
    rw [after, List.foldl_cons, ← after, ih, Call.field?_after, Option.or_assoc]
    by_cases hname : c.name = name <;> simp [hname]

def fresh (taken : List String) (fields : List (String × Datum)) : List (String × Datum) :=
  (fields.filter (·.1 ∉ taken)).eraseDupsBy (·.1 == ·.1)

theorem fresh_cons_of_mem (h : f.1 ∈ taken) : fresh taken (f :: fields) = fresh taken fields := by
  rw [fresh, List.filter_cons_of_neg (by simpa using h), fresh]

theorem fresh_cons_of_not_mem (h : f.1 ∉ taken) :
    fresh taken (f :: fields) = f :: fresh (taken ++ [f.1]) fields := by
  rw [fresh, List.filter_cons_of_pos (by simpa using h), List.eraseDupsBy_cons,
    List.filter_filter, fresh]
  congr 3
  funext g
  simp [Bool.and_comm]

theorem fields_after : (r.after calls).fields =
    r.fields ++ fresh (r.fields.map (·.1)) (calls.map Call.field) := by
  induction calls generalizing r with
  | nil => exact (List.append_nil _).symm
  | cons c calls ih =>
    rw [after, List.foldl_cons, ← after, ih, List.map_cons]
    by_cases hc : c.name ∈ r.fields.map (·.1)
    · rw [Call.after_of_mem hc, fresh_cons_of_mem (f := c.field) hc]
    · rw [Call.after_of_not_mem hc, fresh_cons_of_not_mem (f := c.field) hc, List.map_append,
        List.append_assoc]
      rfl

theorem mem_names_after_iff : name ∈ (r.after calls).fields.map (·.1) ↔
    name ∈ r.fields.map (·.1) ∨ ∃ c ∈ calls, c.name = name := by
  simp [← isSome_field?_iff, field?_after]

theorem appended_iff :
    Appended type calls name ↔ name ∈ ((empty type).after calls).fields.map (·.1) := by
  rw [mem_names_after_iff]
  constructor
  · rintro ⟨before, c, later, rfl, rfl, -⟩
    exact .inr ⟨c, by simp, rfl⟩
  · rintro (h | ⟨c, hc, hname⟩)
    · cases h
    · -- The first call for the name is not refused.
      have hsome : (calls.find? (·.name = name)).isSome :=
        List.find?_isSome.2 ⟨c, hc, decide_eq_true hname⟩
      obtain ⟨d, hd⟩ := Option.isSome_iff_exists.1 hsome
      obtain ⟨hname, before, later, rfl, hbefore⟩ := List.find?_eq_some_iff_append.1 hd
      have hname : d.name = name := of_decide_eq_true hname
      refine ⟨before, d, later, rfl, hname, _, Call.run_act_eq_ok_iff.2 ⟨fun hmem => ?_, rfl⟩⟩
      obtain h | ⟨c, hc, hcname⟩ := mem_names_after_iff.1 hmem
      · cases h
      · simpa [hcname, hname] using hbefore c hc

/-- A call fails exactly if its name has been appended before, and leaves the record as it was. So
the names stay distinct, and the fields are the first ones of their names in the order of the calls.
A record is made of given fields exactly if their names are distinct. -/
theorem keeps_first_fields (type : Address) :
    (∀ (calls : List Call) (c : Call),
      ((∃ e r, c.act.run ((empty type).after calls) = .error e r) ↔ Appended type calls c.name) ∧
        ∀ e r, c.act.run ((empty type).after calls) = .error e r →
          e.kind = .arityMismatch ∧ r = (empty type).after calls) ∧
    (∀ calls : List Call,
      ((empty type).after calls).type = type ∧
      (((empty type).after calls).fields.map (·.1)).Nodup ∧
      ((empty type).after calls).fields = (calls.map Call.field).eraseDupsBy (·.1 == ·.1) ∧
      ∀ name, ((empty type).after calls).field? name =
        (calls.find? (·.name = name)).map Call.value) ∧
    ∀ fields : List (String × Datum),
      ((∃ r, ofFields type fields = .ok r) ↔ (fields.map (·.1)).Nodup) ∧
        ∀ r, ofFields type fields = .ok r → r.type = type ∧ r.fields = fields := by
  refine ⟨fun calls c => ⟨?_, fun e r h => ?_⟩, fun calls => ⟨type_after, ?_, ?_, fun name => ?_⟩,
    fun fields => ⟨?_, fun r h => ?_⟩⟩
  · simp [Call.run_act_eq_error_iff, appended_iff]
  · obtain ⟨-, rfl, rfl⟩ := Call.run_act_eq_error_iff.1 h
    exact ⟨rfl, rfl⟩
  · exact nodup_after List.nodup_nil
  · simp [fields_after, fresh, empty]
  · exact field?_after
  · simp [ofFields_eq_ok_iff]
  · obtain ⟨-, rfl⟩ := ofFields_eq_ok_iff.1 h
    exact ⟨rfl, rfl⟩

end UaBridge.Plant.Record
