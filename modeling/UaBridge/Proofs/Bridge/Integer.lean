import UaBridge.Proofs.Bridge.Scalar

namespace UaBridge

def Leaf.integer? : Leaf → Option Int
  | sbyte v => some v.toInt
  | byte v => some v.toNat
  | int16 v => some v.toInt
  | uint16 v => some v.toNat
  | int32 v => some v.toInt
  | uint32 v => some v.toNat
  | int64 v => some v.toInt
  | uint64 v => some v.toNat
  | _ => none

def Scalar.integer? : Scalar → Option Int
  | .leaf value => value.integer?
  | .object .. => none

def Plant.Datum.integer? : Plant.Datum → Option Int
  | scalar value => value.integer?
  | _ => none

def Builtin.Has : Builtin → Int → Prop
  | .sbyte, n => Int8.minValue.toInt ≤ n ∧ n ≤ Int8.maxValue.toInt
  | .byte, n => 0 ≤ n ∧ n < UInt8.size
  | .int16, n => Int16.minValue.toInt ≤ n ∧ n ≤ Int16.maxValue.toInt
  | .uint16, n => 0 ≤ n ∧ n < UInt16.size
  | .int32, n => Int32.minValue.toInt ≤ n ∧ n ≤ Int32.maxValue.toInt
  | .uint32, n => 0 ≤ n ∧ n < UInt32.size
  | .int64, n => Int64.minValue.toInt ≤ n ∧ n ≤ Int64.maxValue.toInt
  | .uint64, n => 0 ≤ n ∧ n < UInt64.size
  | _, _ => False

def Builtin.Takes (target : Builtin) (d : Plant.Datum) : Prop :=
  ∃ n, d.integer? = some n ∧ target.Has n

def Variant.elements : Variant → List Scalar
  | scalar value => [value]
  | array _ elements => elements

def Plant.Datum.elements : Plant.Datum → List Plant.Datum
  | array _ elements => elements
  | d => [d]

variable {target other : Builtin} {n : Int} {leaf : Leaf} {f : Failure} {locale : String}

namespace Leaf

theorem Image.integer?_eq {d : Plant.Datum} (h : leaf.Image d) (hinteger : leaf.builtin.isInteger) :
    d.integer? = leaf.integer? := by
  cases h with
  | dateTime _ => cases hinteger
  | _ => rfl

theorem builtin_isInteger_of_integer? (h : leaf.integer? = some n) : leaf.builtin.isInteger := by
  cases leaf <;> cases h <;> rfl

theorem exists_image_of_integer? (h : leaf.integer? = some n) :
    ∃ s : Plant.Scalar, leaf.Image (.scalar s) ∧ s.integer? = some n := by
  cases leaf with
  | sbyte v => exact ⟨_, .sbyte v, h⟩
  | byte v => exact ⟨_, .byte v, h⟩
  | int16 v => exact ⟨_, .int16 v, h⟩
  | uint16 v => exact ⟨_, .uint16 v, h⟩
  | int32 v => exact ⟨_, .int32 v, h⟩
  | uint32 v => exact ⟨_, .uint32 v, h⟩
  | int64 v => exact ⟨_, .int64 v, h⟩
  | uint64 v => exact ⟨_, .uint64 v, h⟩
  | _ => cases h

theorem isInteger_of_ofInt (h : ofInt target n = .ok leaf) : target.isInteger := by
  cases target <;> first | rfl | cases h

theorem ofInt_eq_ok_iff :
    ofInt target n = .ok leaf ↔ leaf.builtin = target ∧ leaf.integer? = some n := by
  constructor
  · intro h
    obtain ⟨rfl, s, himage, hn⟩ := image_ofInt h
    exact ⟨rfl, (himage.integer?_eq (isInteger_of_ofInt h)).symm.trans hn⟩
  · rintro ⟨rfl, hn⟩
    obtain ⟨s, himage, hs⟩ := exists_image_of_integer? hn
    exact ofInt_integer? himage hs (builtin_isInteger_of_integer? hn)

theorem ite_ok_eq_error_iff {p : Prop} [Decidable p] {cause : Cause} :
    (if p then .ok leaf else .error (.of cause) : Except Failure Leaf) = .error f ↔
      ¬p ∧ f = .of cause := by
  by_cases hp : p <;> simp [hp, eq_comm]

theorem ofInt_eq_error_iff (h : target.isInteger) :
    ofInt target n = .error f ↔ ¬target.Has n ∧ f = .of (.outOfRange n target) := by
  have hsize (m : Nat) : 0 ≤ n ∧ n ≤ m ↔ 0 ≤ n ∧ n < (m + 1 : Nat) := by omega
  have hunsigned (m : Nat) := and_congr_left' (c := f = .of (.outOfRange n target))
    (not_congr (hsize m))
  cases target with
  | byte => exact ite_ok_eq_error_iff.trans (hunsigned 255)
  | uint16 => exact ite_ok_eq_error_iff.trans (hunsigned 65535)
  | uint32 => exact ite_ok_eq_error_iff.trans (hunsigned 4294967295)
  | uint64 => exact ite_ok_eq_error_iff.trans (hunsigned 18446744073709551615)
  | sbyte | int16 | int32 | int64 => exact ite_ok_eq_error_iff
  | _ => cases h

theorem exists_ofInt_iff (h : target.isInteger) :
    (∃ leaf, ofInt target n = .ok leaf) ↔ target.Has n := by
  cases hwritten : ofInt target n with
  | ok leaf =>
    refine ⟨fun _ => ?_, fun _ => ⟨leaf, rfl⟩⟩
    by_contra hn
    cases hwritten.symm.trans ((ofInt_eq_error_iff h).2 ⟨hn, rfl⟩)
  | error f => simpa using ((ofInt_eq_error_iff h).1 hwritten).1

end Leaf

namespace Plant

theorem Scalar.encode_of_integer? {s : Scalar} (h : target.isInteger) (hn : s.integer? = some n) :
    s.encode locale target = Leaf.ofInt target n := by
  simp only [encode, hn, h, if_true]

theorem Scalar.toLeaf_integer (s : Scalar) (h : target.isInteger) :
    s.toLeaf locale target = .error (.of (.scalarToBuiltin s.kind target)) := by
  unfold toLeaf
  split <;> first | cases h | rfl

namespace Datum
variable {d : Datum}

theorem encodeElement_of_integer? (h : target.isInteger) (hn : d.integer? = some n) :
    d.encodeElement locale target = Leaf.ofInt target n := by
  cases d with
  | scalar s => exact s.encode_of_integer? h hn
  | _ => cases hn

theorem encodeElement_of_integer?_eq_none (locale : String) (h : target.isInteger)
    (hn : d.integer? = none) :
    ∃ cause : Cause, cause.kind = .typeMismatch ∧
      d.encodeElement locale target = .error (.of cause) := by
  cases d with
  | scalar s =>
    have hs : s.integer? = none := hn
    refine ⟨.scalarToBuiltin s.kind target, rfl, ?_⟩
    simp only [encodeElement, Scalar.encode, hs, s.toLeaf_integer h]
  | address a =>
    refine ⟨.formToBuiltin .address target, rfl, ?_⟩
    rw [encodeElement, if_neg (by rintro rfl; cases h)]
  | record t fields => exact ⟨.formToBuiltin .record target, rfl, rfl⟩
  | array kind ds => exact ⟨.nestedArray, rfl, rfl⟩

theorem encodeElement_eq_ok_iff (h : target.isInteger) :
    d.encodeElement locale target = .ok leaf ↔
      leaf.builtin = target ∧ ∃ n, d.integer? = some n ∧ leaf.integer? = some n := by
  cases hn : d.integer? with
  | some n => rw [encodeElement_of_integer? h hn, Leaf.ofInt_eq_ok_iff]; simp
  | none =>
    obtain ⟨cause, -, hfails⟩ := encodeElement_of_integer?_eq_none locale h hn
    simp [hfails]

theorem exists_encodeElement_iff (locale : String) (h : target.isInteger) :
    (∃ leaf, d.encodeElement locale target = .ok leaf) ↔ target.Takes d := by
  cases hn : d.integer? with
  | some n =>
    rw [encodeElement_of_integer? h hn, Leaf.exists_ofInt_iff h]
    simp [Builtin.Takes, hn]
  | none =>
    obtain ⟨cause, -, hfails⟩ := encodeElement_of_integer?_eq_none locale h hn
    simp [hfails, Builtin.Takes, hn]

theorem encodeElement_eq_error (h : target.isInteger)
    (hfails : d.encodeElement locale target = .error f) :
    ¬target.Takes d ∧ f.path = [] ∧
      f.kind = if d.integer?.isSome then .precisionLoss else .typeMismatch := by
  have hnot : ¬target.Takes d := by
    rw [← exists_encodeElement_iff locale h, hfails]
    rintro ⟨leaf, hleaf⟩
    cases hleaf
  refine ⟨hnot, ?_⟩
  cases hn : d.integer? with
  | some n =>
    rw [encodeElement_of_integer? h hn] at hfails
    obtain ⟨-, rfl⟩ := (Leaf.ofInt_eq_error_iff h).1 hfails
    exact ⟨rfl, rfl⟩
  | none =>
    obtain ⟨cause, hcause, hfails'⟩ := encodeElement_of_integer?_eq_none locale h hn
    cases hfails.symm.trans hfails'
    exact ⟨rfl, hcause⟩

theorem encodeElement_congr {d' : Datum} (h : target.isInteger) (hn : d.integer? = some n)
    (hd : d.integer? = d'.integer?) :
    d.encodeElement locale target = d'.encodeElement locale target := by
  rw [encodeElement_of_integer? h hn, encodeElement_of_integer? h (hd ▸ hn)]

theorem array_or_single (d : Datum) : (∃ kind ds, d = .array kind ds) ∨ d.isArray = false := by
  cases d with
  | array kind ds => exact .inl ⟨kind, ds, rfl⟩
  | _ => exact .inr rfl

theorem elements_of_isArray_eq_false (h : d.isArray = false) : d.elements = [d] := by
  cases d with
  | array kind ds => cases h
  | _ => rfl

theorem exists_encodeAs_iff (h : target.isInteger) :
    (∃ v, d.encodeAs locale target = .ok v) ↔ ∀ e ∈ d.elements, target.Takes e := by
  simp only [← exists_encodeElement_iff locale h]
  obtain ⟨kind, ds, rfl⟩ | hd := d.array_or_single
  · simp [encodeAs_array, Except.map_eq_ok_iff, eachIndexed_eq_ok_iff, elements,
      ← Except.exists_forall₂_iff]
  · simp [encodeAs_of_isArray_eq_false hd, elements_of_isArray_eq_false hd, Except.map_eq_ok_iff]

theorem exists_first_of_encodeAs_eq_error (h : target.isInteger)
    (hf : d.encodeAs locale target = .error f) :
    ∃ before e after, d.elements = before ++ e :: after ∧ (∀ x ∈ before, target.Takes x) ∧
      ¬target.Takes e ∧ f.path = (if d.isArray then [.index before.length] else []) ∧
      f.kind = if e.integer?.isSome then .precisionLoss else .typeMismatch := by
  obtain ⟨kind, ds, rfl⟩ | hd := d.array_or_single
  · rw [encodeAs_array, Except.map_eq_error_iff] at hf
    obtain ⟨before, e, after, g, rfl, hbefore, he, rfl⟩ := exists_first_of_eachIndexed_eq_error hf
    obtain ⟨hnot, hpath, hkind⟩ := encodeElement_eq_error h he
    refine ⟨before, e, after, rfl, fun x hx => ?_, hnot, ?_, hkind⟩
    · exact (exists_encodeElement_iff locale h).1 (hbefore x hx)
    · simp [Failure.within, hpath, isArray, form]
  · rw [encodeAs_of_isArray_eq_false hd, Except.map_eq_error_iff] at hf
    obtain ⟨hnot, hpath, hkind⟩ := encodeElement_eq_error h hf
    exact ⟨[], d, [], elements_of_isArray_eq_false hd, by simp, hnot, by simp [hd, hpath], hkind⟩

theorem forall₂_elements_of_writes {v : Variant} (h : target.isInteger)
    (hv : target.Writes locale d v) :
    v.builtin = target ∧ List.Forall₂
      (fun e s => Scalar.builtin s = target ∧ ∃ n, e.integer? = some n ∧ s.integer? = some n)
      d.elements v.elements := by
  cases hv with
  | scalar hleaf =>
    have helement := (encodeElement_eq_ok_iff h).1 hleaf
    rw [elements_of_isArray_eq_false (isArray_of_encodeElement hleaf)]
    exact ⟨helement.1, .cons helement .nil⟩
  | @array kind ds leaves hleaves =>
    refine ⟨rfl, List.forall₂_map_right_iff.2 (hleaves.imp fun e leaf he => ?_)⟩
    exact (encodeElement_eq_ok_iff h).1 he

end Datum

theorem Scalar.Recoded.integer?_eq {s s' : Scalar} (h : s.Recoded locale s') :
    s.integer? = s'.integer? := by
  cases h with
  | integer hs hs' => rw [hs, hs']
  | _ => rfl

theorem Datum.Recoded.integer?_eq {d d' : Datum} (h : d.Recoded locale d') :
    d.integer? = d'.integer? := by
  cases h with
  | scalar h => exact h.integer?_eq
  | address a => rfl

theorem Datum.Recoded.isArray_eq {d d' : Datum} (h : d.Recoded locale d') :
    d.isArray = false ∧ d'.isArray = false := by
  cases h <;> exact ⟨rfl, rfl⟩

end Plant

theorem Builtin.Recodes.encodeAs_eq {d d' : Plant.Datum} (h : target.Recodes locale d d')
    (hd : ∀ e ∈ d.elements, ∃ n, e.integer? = some n) (hother : other.isInteger) :
    d.encodeAs locale other = d'.encodeAs locale other := by
  cases h with
  | @scalar d d' h =>
    obtain ⟨hsingle, hsingle'⟩ := h.isArray_eq
    obtain ⟨n, hn⟩ := hd d (by simp [Plant.Datum.elements_of_isArray_eq_false hsingle])
    rw [Plant.Datum.encodeAs_of_isArray_eq_false hsingle,
      Plant.Datum.encodeAs_of_isArray_eq_false hsingle',
      Plant.Datum.encodeElement_congr hother hn h.integer?_eq]
  | @array kind ds ds' h =>
    rw [Plant.Datum.encodeAs_array, Plant.Datum.encodeAs_array]
    refine congrArg _ (eachIndexed_congr ?_)
    refine ((List.forall₂_and_left ds ds').2 ⟨hd, h⟩).imp ?_
    rintro e e' ⟨⟨n, hn⟩, he⟩
    exact Plant.Datum.encodeElement_congr hother hn he.integer?_eq

/-- A value is written for an integer type exactly if the type has the number of each element, and
then each keeps its number. Otherwise the first element that is not taken decides the failure. What
is read back is written for any integer type just as the value itself is. -/
theorem Plant.Datum.encodeAs_keeps_numbers (locale : String) (target : Builtin)
    (h : target.isInteger) (d : Datum) :
    ((∃ v, d.encodeAs locale target = .ok v) ↔ ∀ e ∈ d.elements, target.Takes e) ∧
      (∀ v, d.encodeAs locale target = .ok v →
        v.builtin = target ∧ v.isArray = d.isArray ∧
          List.Forall₂
            (fun e s => Scalar.builtin s = target ∧ ∃ n, e.integer? = some n ∧ s.integer? = some n)
            d.elements v.elements ∧
          ∃ d', v.decodeAs target = .ok d' ∧
            ∀ other : Builtin, other.isInteger →
              d'.encodeAs locale other = d.encodeAs locale other) ∧
      ∀ f, d.encodeAs locale target = .error f →
        ∃ before e after, d.elements = before ++ e :: after ∧ (∀ x ∈ before, target.Takes x) ∧
          ¬target.Takes e ∧ f.path = (if d.isArray then [.index before.length] else []) ∧
          f.kind = if e.integer?.isSome then .precisionLoss else .typeMismatch := by
  refine ⟨exists_encodeAs_iff h, fun v hv => ?_, fun f => exists_first_of_encodeAs_eq_error h⟩
  have hwrites := encodeAs_eq_ok_iff.1 hv
  obtain ⟨hbuiltin, helements⟩ := forall₂_elements_of_writes h hwrites
  obtain ⟨d', hreads, hrecodes⟩ := hwrites.exists_reads
  have htakes := (exists_encodeAs_iff h).1 ⟨v, hv⟩
  refine ⟨hbuiltin, hwrites.isArray_eq, helements, d', Variant.decodeAs_eq_ok_iff.2 hreads, ?_⟩
  intro other hother
  exact (hrecodes.encodeAs_eq (fun e he => (htakes e he).imp fun _ hn => hn.1) hother).symm

namespace Counters

def bytes : Plant.Datum := .array (.scalar .llong) [.scalar (.llong 0), .scalar (.llong 255)]

def overflow : Plant.Datum :=
  .array (.scalar .int) [.scalar (.int 7), .scalar (.int (-1)), .scalar (.int 300)]

end Counters

theorem Plant.Datum.encodeAs_keeps_numbers_counters :
    Builtin.byte.isInteger ∧
      (∃ v d', Counters.bytes.encodeAs "en" .byte = .ok v ∧ v.decodeAs .byte = .ok d' ∧
        d'.encodeAs "en" .int64 = Counters.bytes.encodeAs "en" .int64) ∧
      ∃ f e, Counters.overflow.encodeAs "en" .byte = .error f ∧ e ∈ Counters.overflow.elements ∧
        ¬Builtin.byte.Takes e := by
  obtain ⟨htakes, hwritten, -⟩ := encodeAs_keeps_numbers "en" .byte rfl Counters.bytes
  obtain ⟨v, hv⟩ := htakes.2 (by
    simp only [Counters.bytes, elements, List.forall_mem_cons]
    exact ⟨⟨0, rfl, by decide, by decide⟩, ⟨255, rfl, by decide, by decide⟩, by simp⟩)
  obtain ⟨-, -, -, d', hd', hagain⟩ := hwritten v hv
  obtain ⟨f, hf⟩ : ∃ f, Counters.overflow.encodeAs "en" .byte = .error f := ⟨_, rfl⟩
  obtain ⟨before, e, after, helements, -, hnot, -⟩ :=
    (encodeAs_keeps_numbers "en" .byte rfl Counters.overflow).2.2 f hf
  exact ⟨rfl, ⟨v, d', hv, hd', hagain .int64 rfl⟩, f, e, hf, by simp [helements], hnot⟩

end UaBridge
