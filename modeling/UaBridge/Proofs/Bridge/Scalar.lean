import UaBridge.Bridge.Scalar
import UaBridge.Proofs.Bridge.Identifier

namespace UaBridge

inductive Leaf.Image : Leaf → Plant.Datum → Prop
  | boolean (b : Bool) : Image (.boolean b) (.scalar (.bool b))
  | sbyte (v : Int8) : Image (.sbyte v) (.scalar (.schar v))
  | byte (v : UInt8) : Image (.byte v) (.scalar (.char v))
  | int16 (v : Int16) : Image (.int16 v) (.scalar (.int v))
  | uint16 (v : UInt16) : Image (.uint16 v) (.scalar (.uint v))
  | int32 (v : Int32) : Image (.int32 v) (.scalar (.long v))
  | uint32 (v : UInt32) : Image (.uint32 v) (.scalar (.ulong v))
  | int64 (v : Int64) : Image (.int64 v) (.scalar (.llong v))
  | uint64 (v : UInt64) : Image (.uint64 v) (.scalar (.ullong v))
  | float (x : Binary32) : Image (.float x) (.scalar (.float x))
  | double (x : Binary64) : Image (.double x) (.scalar (.double x))
  | string (s : Option String) : Image (.string s) (.scalar (.string s))
  | dateTime (ticks : Int64) : Image (.dateTime ticks) (.scalar (.llong ticks))
  | byteString (b : Option (List UInt8)) : Image (.byteString b) (.scalar (.byteString b))
  | nodeId {id a} : id.HasAddress a → Image (.nodeId id) (.address a)
  | localizedText (t : LocalizedText) : Image (.localizedText t) (.scalar (.localizedText t))

namespace Leaf
variable {leaf : Leaf} {d : Plant.Datum}

theorem toDatum_eq_ok_iff : leaf.toDatum = .ok d ↔ leaf.Image d := by
  constructor
  · intro h
    cases leaf with
    | nodeId id =>
      obtain ⟨a, ha, rfl⟩ := Except.map_eq_ok_iff.1 h
      exact .nodeId (NodeId.toAddress_eq_ok_iff.1 ha)
    | _ => cases h; constructor
  · intro h
    cases h with
    | nodeId h => exact Except.map_eq_ok_iff.2 ⟨_, NodeId.toAddress_eq_ok_iff.2 h, rfl⟩
    | _ => rfl

theorem Image.elementKind?_eq (h : leaf.Image d) :
    d.elementKind? = some leaf.builtin.datumKind := by
  cases h <;> rfl

theorem Image.isArray_eq (h : leaf.Image d) : d.isArray = false := by
  cases h <;> rfl

theorem ofInt_integer? {s : Plant.Scalar} {n : Int} (h : leaf.Image (.scalar s))
    (hn : s.integer? = some n) (hinteger : leaf.builtin.isInteger) :
    ofInt leaf.builtin n = .ok leaf := by
  cases h <;> cases hn
  case sbyte v =>
    have hlow := v.le_toInt
    have hhigh := v.toInt_lt
    exact (if_pos (by omega)).trans (by rw [Int8.ofInt_toInt])
  case byte v =>
    have hhigh := v.toNat_lt
    exact (if_pos (by omega)).trans (by rw [Int.toNat_natCast, UInt8.ofNat_toNat])
  case int16 v =>
    have hlow := v.le_toInt
    have hhigh := v.toInt_lt
    exact (if_pos (by omega)).trans (by rw [Int16.ofInt_toInt])
  case uint16 v =>
    have hhigh := v.toNat_lt
    exact (if_pos (by omega)).trans (by rw [Int.toNat_natCast, UInt16.ofNat_toNat])
  case int32 v =>
    have hlow := v.le_toInt
    have hhigh := v.toInt_lt
    exact (if_pos (by omega)).trans (by rw [Int32.ofInt_toInt])
  case uint32 v =>
    have hhigh := v.toNat_lt
    exact (if_pos (by omega)).trans (by rw [Int.toNat_natCast, UInt32.ofNat_toNat])
  case int64 v =>
    have hlow := v.le_toInt
    have hhigh := v.toInt_lt
    exact (if_pos (by omega)).trans (by rw [Int64.ofInt_toInt])
  case uint64 v =>
    have hhigh := v.toNat_lt
    exact (if_pos (by omega)).trans (by rw [Int.toNat_natCast, UInt64.ofNat_toNat])
  case dateTime => cases hinteger

theorem ite_ok_eq_ok_iff {p : Prop} [Decidable p] {cause : Cause} {written : Leaf} :
    (if p then .ok written else .error (.of cause) : Except Failure Leaf) = .ok leaf ↔
      p ∧ written = leaf := by
  by_cases hp : p <;> simp [hp]

theorem image_ofInt {target : Builtin} {n : Int} (h : ofInt target n = .ok leaf) :
    leaf.builtin = target ∧ ∃ s : Plant.Scalar, leaf.Image (.scalar s) ∧ s.integer? = some n := by
  cases target with
  | sbyte =>
    obtain ⟨⟨hlow, hhigh⟩, rfl⟩ := ite_ok_eq_ok_iff.1 h
    exact ⟨rfl, _, .sbyte _, congrArg some (Int8.toInt_ofInt_of_le (by omega) (by omega))⟩
  | byte =>
    obtain ⟨⟨hlow, hhigh⟩, rfl⟩ := ite_ok_eq_ok_iff.1 h
    refine ⟨rfl, _, .byte _, congrArg some ?_⟩
    rw [UInt8.toNat_ofNat_of_lt' (by rw [UInt8.size]; omega), Int.toNat_of_nonneg hlow]
  | int16 =>
    obtain ⟨⟨hlow, hhigh⟩, rfl⟩ := ite_ok_eq_ok_iff.1 h
    exact ⟨rfl, _, .int16 _, congrArg some (Int16.toInt_ofInt_of_le (by omega) (by omega))⟩
  | uint16 =>
    obtain ⟨⟨hlow, hhigh⟩, rfl⟩ := ite_ok_eq_ok_iff.1 h
    refine ⟨rfl, _, .uint16 _, congrArg some ?_⟩
    rw [UInt16.toNat_ofNat_of_lt' (by rw [UInt16.size]; omega), Int.toNat_of_nonneg hlow]
  | int32 =>
    obtain ⟨⟨hlow, hhigh⟩, rfl⟩ := ite_ok_eq_ok_iff.1 h
    exact ⟨rfl, _, .int32 _, congrArg some (Int32.toInt_ofInt_of_le (by omega) (by omega))⟩
  | uint32 =>
    obtain ⟨⟨hlow, hhigh⟩, rfl⟩ := ite_ok_eq_ok_iff.1 h
    refine ⟨rfl, _, .uint32 _, congrArg some ?_⟩
    rw [UInt32.toNat_ofNat_of_lt' (by rw [UInt32.size]; omega), Int.toNat_of_nonneg hlow]
  | int64 =>
    obtain ⟨⟨hlow, hhigh⟩, rfl⟩ := ite_ok_eq_ok_iff.1 h
    exact ⟨rfl, _, .int64 _, congrArg some (Int64.toInt_ofInt_of_le (by omega) (by omega))⟩
  | uint64 =>
    obtain ⟨⟨hlow, hhigh⟩, rfl⟩ := ite_ok_eq_ok_iff.1 h
    refine ⟨rfl, _, .uint64 _, congrArg some ?_⟩
    rw [UInt64.toNat_ofNat_of_lt' (by rw [UInt64.size]; omega), Int.toNat_of_nonneg hlow]
  | _ => cases h

end Leaf

/-- What becomes of a scalar that is written and read back: it may have changed its width, and a
plain string may have become a localized text. -/
inductive Plant.Scalar.Recoded (locale : String) : Plant.Scalar → Plant.Scalar → Prop
  | integer {s s' n} : s.integer? = some n → s'.integer? = some n → Recoded locale s s'
  | bool (b : Bool) : Recoded locale (.bool b) (.bool b)
  | float (x : Binary32) : Recoded locale (.float x) (.float x)
  | widened (x : Binary32) : Recoded locale (.float x) (.double x.widen)
  | double (x : Binary64) : Recoded locale (.double x) (.double x)
  | narrowed {x y} : x.narrow? = some y → Recoded locale (.double x) (.float y)
  | string (s : Option String) : Recoded locale (.string s) (.string s)
  | null : Recoded locale (.string none) (.localizedText .null)
  | text (s : String) : Recoded locale (.string (some s)) (.localizedText ⟨some locale, some s⟩)
  | localizedText (t : LocalizedText) : Recoded locale (.localizedText t) (.localizedText t)
  | byteString (b : Option (List UInt8)) : Recoded locale (.byteString b) (.byteString b)

namespace Plant
variable {locale : String} {target : Builtin} {leaf : Leaf}

theorem Scalar.image_toLeaf {s : Scalar} (h : s.toLeaf locale target = .ok leaf) :
    leaf.builtin = target ∧ ∃ s' : Scalar, leaf.Image (.scalar s') ∧ s.Recoded locale s' := by
  unfold Scalar.toLeaf at h
  split at h
  case h_1 b => cases h; exact ⟨rfl, _, .boolean b, .bool b⟩
  case h_2 x => cases h; exact ⟨rfl, _, .float x, .float x⟩
  case h_3 x => cases h; exact ⟨rfl, _, .double x.widen, .widened x⟩
  case h_4 x => cases h; exact ⟨rfl, _, .double x, .double x⟩
  case h_5 x =>
    split at h
    next y hy =>
      cases h
      exact ⟨rfl, _, .float y, .narrowed hy⟩
    next => cases h
  case h_6 v => cases h; exact ⟨rfl, _, .string v, .string v⟩
  case h_7 v =>
    cases h
    cases v with
    | none => exact ⟨rfl, _, .localizedText _, .null⟩
    | some text => exact ⟨rfl, _, .localizedText _, .text text⟩
  case h_8 t => cases h; exact ⟨rfl, _, .localizedText t, .localizedText t⟩
  case h_9 b => cases h; exact ⟨rfl, _, .byteString b, .byteString b⟩
  case h_10 => cases h

theorem Scalar.image_encode {s : Scalar} (h : s.encode locale target = .ok leaf) :
    leaf.builtin = target ∧ ∃ s' : Scalar, leaf.Image (.scalar s') ∧ s.Recoded locale s' := by
  unfold Scalar.encode at h
  split at h
  next => exact Scalar.image_toLeaf h
  next n hn =>
    split at h
    next =>
      obtain ⟨hbuiltin, s', himage, hn'⟩ := Leaf.image_ofInt h
      exact ⟨hbuiltin, s', himage, .integer hn hn'⟩
    next =>
      split at h
      next ticks _ =>
        cases h
        exact ⟨rfl, _, .dateTime ticks, .integer hn hn⟩
      next => cases h

inductive Datum.Recoded (locale : String) : Datum → Datum → Prop
  | scalar {s s'} : s.Recoded locale s' → Recoded locale (.scalar s) (.scalar s')
  | address (a : Address) : Recoded locale (.address a) (.address a)

theorem Datum.image_encodeElement {d : Datum} (h : d.encodeElement locale target = .ok leaf) :
    leaf.builtin = target ∧ ∃ d', leaf.Image d' ∧ d.Recoded locale d' := by
  cases d with
  | scalar s =>
    obtain ⟨hbuiltin, s', himage, hrecoded⟩ := Scalar.image_encode h
    exact ⟨hbuiltin, _, himage, .scalar hrecoded⟩
  | address a =>
    simp only [Datum.encodeElement] at h
    split at h
    next htarget =>
      obtain ⟨id, hid, rfl⟩ := Except.map_eq_ok_iff.1 h
      exact ⟨htarget.symm, _, .nodeId (Address.hasAddress_of_toNodeId hid), .address a⟩
    next => cases h
  | record t fields => cases h
  | array kind elements => cases h

theorem Datum.encodeElement_of_image {d : Datum} (h : leaf.Image d) :
    d.encodeElement locale leaf.builtin = .ok leaf := by
  cases h with
  | nodeId h =>
    simp [Datum.encodeElement, Leaf.builtin, Except.map_eq_ok_iff, Address.toNodeId_of_hasAddress h]
  | sbyte v => exact Leaf.ofInt_integer? (.sbyte v) rfl rfl
  | byte v => exact Leaf.ofInt_integer? (.byte v) rfl rfl
  | int16 v => exact Leaf.ofInt_integer? (.int16 v) rfl rfl
  | uint16 v => exact Leaf.ofInt_integer? (.uint16 v) rfl rfl
  | int32 v => exact Leaf.ofInt_integer? (.int32 v) rfl rfl
  | uint32 v => exact Leaf.ofInt_integer? (.uint32 v) rfl rfl
  | int64 v => exact Leaf.ofInt_integer? (.int64 v) rfl rfl
  | uint64 v => exact Leaf.ofInt_integer? (.uint64 v) rfl rfl
  | _ => rfl

theorem Datum.isArray_of_encodeElement {d : Datum} (h : d.encodeElement locale target = .ok leaf) :
    d.isArray = false := by
  cases d with
  | array kind elements => cases h
  | _ => rfl

end Plant

theorem eachIndexed_eq_ok_iff {α β : Type} {f : α → Except Failure β} {l : List α} {l' : List β} :
    eachIndexed f l = .ok l' ↔ List.Forall₂ (fun a b => f a = .ok b) l l' := by
  rw [eachIndexed]
  exact Except.mapM_zipIdx_eq_ok_iff fun e i => Failure.within (.index i) e

theorem eachIndexed_congr {α β γ : Type} {f : α → Except Failure γ} {g : β → Except Failure γ}
    {l : List α} {m : List β} (h : List.Forall₂ (fun a b => f a = g b) l m) :
    eachIndexed f l = eachIndexed g m := by
  rw [eachIndexed, eachIndexed]
  generalize 0 = start
  induction h generalizing start with
  | nil => rfl
  | cons hab _ ih =>
    rw [List.zipIdx_cons, List.zipIdx_cons, List.mapM_cons, List.mapM_cons, hab, ih]

theorem exists_first_of_eachIndexed_eq_error {α β : Type} {f : α → Except Failure β} {l : List α}
    {e : Failure} (h : eachIndexed f l = .error e) :
    ∃ before a after g, l = before ++ a :: after ∧ (∀ x ∈ before, ∃ b, f x = .ok b) ∧
      f a = .error g ∧ e = g.within (.index before.length) := by
  obtain ⟨before, p, after, hl, hbefore, hp⟩ := Except.exists_first_of_mapM_eq_error h
  obtain ⟨l₁, l₂, rfl, rfl, hrest⟩ := List.zipIdx_eq_append_iff.1 hl
  obtain ⟨a, l₃, rfl, rfl, -⟩ := List.zipIdx_eq_cons_iff.1 hrest.symm
  cases ha : f a with
  | ok b =>
    rw [ha] at hp
    cases hp
  | error g =>
    rw [ha] at hp
    cases hp
    refine ⟨l₁, a, l₃, g, rfl, fun x hx => ?_, ha, by rw [Nat.zero_add]⟩
    rw [← List.zipIdx_map_fst 0 l₁] at hx
    obtain ⟨p, hp, rfl⟩ := List.mem_map.1 hx
    obtain ⟨b, hb⟩ := hbefore p hp
    exact ⟨b, Except.mapError_eq_ok_iff.1 hb⟩

theorem Plant.Datum.misfit?_eq_none_iff {kind : Plant.Kind} {ds : List Plant.Datum} (index : Nat) :
    misfit? kind index ds = none ↔ ∀ d ∈ ds, d.elementKind? = some kind := by
  induction ds generalizing index with
  | nil => simp [misfit?]
  | cons d ds ih =>
    cases hd : d.elementKind? with
    | none => simp [misfit?, hd]
    | some found =>
      by_cases hfound : found = kind
      · simp [misfit?, hd, hfound, ih]
      · simp [misfit?, hd, hfound]

theorem Plant.Datum.array?_eq_ok_iff {kind : Plant.Kind} {ds : List Plant.Datum} {d : Plant.Datum} :
    array? kind ds = .ok d ↔ (∀ e ∈ ds, e.elementKind? = some kind) ∧ .array kind ds = d := by
  rw [array?, ← misfit?_eq_none_iff 0]
  cases misfit? kind 0 ds <;> simp

theorem Variant.misfit?_eq_none_iff {elementType : Builtin} {elements : List Scalar}
    (index : Nat) :
    misfit? elementType index elements = none ↔ ∀ e ∈ elements, e.builtin = elementType := by
  induction elements generalizing index with
  | nil => simp [misfit?]
  | cons e elements ih =>
    by_cases he : e.builtin = elementType
    · simp [misfit?, he, ih]
    · simp [misfit?, he]

theorem Variant.array?_eq_ok_iff {elementType : Builtin} {elements : List Scalar} {v : Variant} :
    array? elementType elements = .ok v ↔
      (∀ e ∈ elements, e.builtin = elementType) ∧ .array elementType elements = v := by
  rw [array?, ← misfit?_eq_none_iff 0]
  cases misfit? elementType 0 elements <;> simp

namespace Builtin

/-- A value of a built-in type, or an array of such, and the IO value that it is read as. -/
inductive Reads (base : Builtin) : Variant → Plant.Datum → Prop
  | scalar {leaf d} : leaf.builtin = base → leaf.Image d → Reads base (.scalar (.leaf leaf)) d
  | array {leaves ds} : (∀ leaf ∈ leaves, leaf.builtin = base) → List.Forall₂ Leaf.Image leaves ds →
      Reads base (.array base (leaves.map .leaf)) (.array base.datumKind ds)

inductive Writes (locale : String) (base : Builtin) : Plant.Datum → Variant → Prop
  | scalar {d leaf} : d.encodeElement locale base = .ok leaf →
      Writes locale base d (.scalar (.leaf leaf))
  | array {kind ds leaves} :
      List.Forall₂ (fun d leaf => d.encodeElement locale base = .ok leaf) ds leaves →
      Writes locale base (.array kind ds) (.array base (leaves.map .leaf))

inductive Recodes (locale : String) (base : Builtin) : Plant.Datum → Plant.Datum → Prop
  | scalar {d d'} : d.Recoded locale d' → Recodes locale base d d'
  | array {kind ds ds'} : List.Forall₂ (Plant.Datum.Recoded locale) ds ds' →
      Recodes locale base (.array kind ds) (.array base.datumKind ds')

end Builtin

section arrays
variable {locale : String} {base : Builtin} {v : Variant} {d d' : Plant.Datum}

theorem Scalar.decode_eq_ok_iff {s : Scalar} :
    s.decode base = .ok d ↔ ∃ leaf : Leaf, leaf.builtin = base ∧ s = .leaf leaf ∧ leaf.Image d := by
  cases s with
  | object type body => simp [decode]
  | leaf leaf =>
    by_cases hbase : leaf.builtin = base
    · simp [decode, hbase, Leaf.toDatum_eq_ok_iff]
    · simp [decode, hbase]

theorem Scalar.forall₂_decode_iff {elements : List Scalar} {ds : List Plant.Datum} :
    List.Forall₂ (fun e d => Scalar.decode base e = .ok d) elements ds ↔
      ∃ leaves : List Leaf, (∀ leaf ∈ leaves, leaf.builtin = base) ∧
        elements = leaves.map .leaf ∧ List.Forall₂ Leaf.Image leaves ds := by
  constructor
  · intro h
    induction h with
    | nil => exact ⟨[], by simp, rfl, .nil⟩
    | cons he _ ih =>
      obtain ⟨leaf, hbase, rfl, himage⟩ := Scalar.decode_eq_ok_iff.1 he
      obtain ⟨leaves, hbases, rfl, himages⟩ := ih
      exact ⟨leaf :: leaves, by simpa using ⟨hbase, hbases⟩, rfl, .cons himage himages⟩
  · rintro ⟨leaves, hbases, rfl, himages⟩
    rw [List.forall₂_map_left_iff]
    refine ((List.forall₂_and_left leaves ds).2 ⟨hbases, himages⟩).imp ?_
    intro leaf d ⟨hbase, himage⟩
    exact Scalar.decode_eq_ok_iff.2 ⟨leaf, hbase, rfl, himage⟩

theorem Leaf.elementKind?_of_forall₂_image {leaves : List Leaf} {ds : List Plant.Datum}
    (hbases : ∀ leaf ∈ leaves, leaf.builtin = base) (himages : List.Forall₂ Leaf.Image leaves ds) :
    ∀ d ∈ ds, d.elementKind? = some base.datumKind := by
  induction himages with
  | nil => simp
  | cons himage _ ih =>
    rw [List.forall_mem_cons] at hbases ⊢
    exact ⟨hbases.1 ▸ himage.elementKind?_eq, ih hbases.2⟩

theorem Variant.decodeAs_array {elements : List Scalar} :
    decodeAs base (.array base elements) =
      (eachIndexed (Scalar.decode base) elements).map (.array base.datumKind) := by
  rw [decodeAs, if_pos rfl]
  cases hds : eachIndexed (Scalar.decode base) elements with
  | error e => rfl
  | ok ds =>
    obtain ⟨leaves, hbases, -, himages⟩ :=
      Scalar.forall₂_decode_iff.1 (eachIndexed_eq_ok_iff.1 hds)
    exact Plant.Datum.array?_eq_ok_iff.2
      ⟨Leaf.elementKind?_of_forall₂_image hbases himages, rfl⟩

theorem Variant.decodeAs_eq_ok_iff : v.decodeAs base = .ok d ↔ base.Reads v d := by
  constructor
  · intro h
    cases v with
    | scalar s =>
      obtain ⟨leaf, hbase, rfl, himage⟩ := Scalar.decode_eq_ok_iff.1 h
      exact .scalar hbase himage
    | array elementType elements =>
      by_cases htype : elementType = base
      · subst htype
        simp only [decodeAs_array, Except.map_eq_ok_iff, eachIndexed_eq_ok_iff,
          Scalar.forall₂_decode_iff] at h
        obtain ⟨ds, ⟨leaves, hbases, rfl, himages⟩, rfl⟩ := h
        exact .array hbases himages
      · rw [decodeAs, if_neg htype] at h
        cases h
  · intro h
    cases h with
    | scalar hbase himage => exact Scalar.decode_eq_ok_iff.2 ⟨_, hbase, rfl, himage⟩
    | array hbases himages =>
      simp only [decodeAs_array, Except.map_eq_ok_iff, eachIndexed_eq_ok_iff,
        Scalar.forall₂_decode_iff]
      exact ⟨_, ⟨_, hbases, rfl, himages⟩, rfl⟩

theorem Plant.Datum.builtin_of_forall₂_encodeElement {ds : List Plant.Datum} {leaves : List Leaf}
    (h : List.Forall₂ (fun d leaf => encodeElement locale base d = .ok leaf) ds leaves) :
    ∀ leaf ∈ leaves, leaf.builtin = base := by
  induction h with
  | nil => simp
  | cons hleaf _ ih => exact List.forall_mem_cons.2 ⟨(image_encodeElement hleaf).1, ih⟩

theorem Plant.Datum.encodeAs_array {kind : Kind} {ds : List Datum} :
    encodeAs locale base (.array kind ds) =
      (eachIndexed (encodeElement locale base) ds).map fun leaves =>
        .array base (leaves.map .leaf) := by
  rw [encodeAs]
  cases hleaves : eachIndexed (encodeElement locale base) ds with
  | error e => rfl
  | ok leaves =>
    have hbases := builtin_of_forall₂_encodeElement (eachIndexed_eq_ok_iff.1 hleaves)
    exact Variant.array?_eq_ok_iff.2 ⟨List.forall_mem_map.2 hbases, rfl⟩

theorem Plant.Datum.encodeAs_of_isArray_eq_false (h : d.isArray = false) :
    d.encodeAs locale base =
      (d.encodeElement locale base).map fun leaf => .scalar (.leaf leaf) := by
  cases d with
  | array kind ds => cases h
  | _ => rfl

theorem Plant.Datum.encodeAs_eq_ok_iff :
    d.encodeAs locale base = .ok v ↔ base.Writes locale d v := by
  constructor
  · intro h
    cases d with
    | array kind ds =>
      simp only [encodeAs_array, Except.map_eq_ok_iff, eachIndexed_eq_ok_iff] at h
      obtain ⟨leaves, hleaves, rfl⟩ := h
      exact .array hleaves
    | _ =>
      rw [encodeAs_of_isArray_eq_false rfl] at h
      obtain ⟨leaf, hleaf, rfl⟩ := Except.map_eq_ok_iff.1 h
      exact .scalar hleaf
  · intro h
    cases h with
    | scalar hleaf =>
      rw [encodeAs_of_isArray_eq_false (isArray_of_encodeElement hleaf)]
      exact Except.map_eq_ok_iff.2 ⟨_, hleaf, rfl⟩
    | array hleaves =>
      simp only [encodeAs_array, Except.map_eq_ok_iff, eachIndexed_eq_ok_iff]
      exact ⟨_, hleaves, rfl⟩

end arrays

namespace Builtin
variable {locale : String} {base : Builtin} {v : Variant} {d d' : Plant.Datum}

theorem Reads.isArray_eq (h : base.Reads v d) : d.isArray = v.isArray := by
  cases h with
  | scalar _ himage => exact himage.isArray_eq
  | array => rfl

theorem Writes.isArray_eq (h : base.Writes locale d v) : v.isArray = d.isArray := by
  cases h with
  | scalar hleaf => exact (Plant.Datum.isArray_of_encodeElement hleaf).symm
  | array => rfl

theorem Reads.writes (h : base.Reads v d) : base.Writes locale d v := by
  cases h with
  | scalar hbase himage => exact .scalar (hbase ▸ Plant.Datum.encodeElement_of_image himage)
  | @array leaves ds hbases himages =>
    apply Writes.array
    refine (((List.forall₂_and_left leaves ds).2 ⟨hbases, himages⟩).imp ?_).flip
    intro leaf d ⟨hbase, himage⟩
    exact hbase ▸ Plant.Datum.encodeElement_of_image himage

theorem exists_forall₂_image {ds : List Plant.Datum} {leaves : List Leaf}
    (h : List.Forall₂ (fun d leaf => d.encodeElement locale base = .ok leaf) ds leaves) :
    ∃ ds', List.Forall₂ Leaf.Image leaves ds' ∧
      List.Forall₂ (Plant.Datum.Recoded locale) ds ds' := by
  induction h with
  | nil => exact ⟨[], .nil, .nil⟩
  | cons hleaf _ ih =>
    obtain ⟨-, d', himage, hrecoded⟩ := Plant.Datum.image_encodeElement hleaf
    obtain ⟨ds', himages, hrecodeds⟩ := ih
    exact ⟨d' :: ds', .cons himage himages, .cons hrecoded hrecodeds⟩

theorem Writes.exists_reads (h : base.Writes locale d v) :
    ∃ d', base.Reads v d' ∧ base.Recodes locale d d' := by
  cases h with
  | scalar hleaf =>
    obtain ⟨hbase, d', himage, hrecoded⟩ := Plant.Datum.image_encodeElement hleaf
    exact ⟨d', .scalar hbase himage, .scalar hrecoded⟩
  | array hleaves =>
    have hbases := Plant.Datum.builtin_of_forall₂_encodeElement hleaves
    obtain ⟨ds', himages, hrecodeds⟩ := exists_forall₂_image hleaves
    exact ⟨_, .array hbases himages, .array hrecodeds⟩

end Builtin
end UaBridge
