import UaBridge.Proofs.Bridge.Supply
import UaBridge.Proofs.Bridge.Typing
import UaBridge.Proofs.Bridge.Writing
import UaBridge.Proofs.Schema.Extension

namespace UaBridge

variable {r r' : Resolver} {locale : String} {limit : Nat}

mutual

theorem Typed.keeps (hkeeps : r.Keeps r') : ∀ {depth type v d}, Typed r limit depth type v d →
    Typed r' limit depth type v d
  | _, _, _, _, .value hbase hreads => .value (hkeeps.hasBase hbase) hreads
  | _, _, _, _, .object hbase ho => .object (hkeeps.hasBase hbase) (ho.keeps hkeeps hbase)
  | _, _, _, _, .objects hbase hos => .objects (hkeeps.hasBase hbase) (hos.keeps hkeeps hbase)

theorem TypedObjects.keeps (hkeeps : r.Keeps r') : ∀ {depth type elements ds kind},
    r.HasBase type kind → TypedObjects r limit depth type elements ds →
    TypedObjects r' limit depth type elements ds
  | _, _, _, _, _, _, .nil => .nil
  | _, _, _, _, _, hbase, .cons ho hos => .cons (ho.keeps hkeeps hbase) (hos.keeps hkeeps hbase)

theorem TypedObject.keeps (hkeeps : r.Keeps r') : ∀ {depth type body a fields kind},
    r.HasBase type kind → TypedObject r limit depth type body a fields →
    TypedObject r' limit depth type body a fields
  | _, _, _, _, _, _, hbase, .intro hdepth hd hshape ha hfits hfields =>
    .intro hdepth (hkeeps.definition _ _ hd) hshape ha (hkeeps.fits hbase hd hfits)
      (hkeeps.schema_eq hbase hd ▸ hfields.keeps hkeeps)

theorem TypedFields.keeps (hkeeps : r.Keeps r') : ∀ {depth s vs ds},
    TypedFields r limit depth s vs ds → TypedFields r' limit depth s vs ds
  | _, _, _, _, .nil => .nil
  | _, _, _, _, .cons hslot harray htyped hrest =>
    .cons hslot harray (htyped.keeps hkeeps) (hrest.keeps hkeeps)

end

mutual

theorem Written.keeps (hkeeps : r.Keeps r') : ∀ {depth type d v},
    Written r locale limit depth type d v → Written r' locale limit depth type d v
  | _, _, _, _, .value hbase hwrites => .value (hkeeps.hasBase hbase) hwrites
  | _, _, _, _, .record hbase hw => .record (hkeeps.hasBase hbase) (hw.keeps hkeeps hbase)
  | _, _, _, _, .records hbase hws => .records (hkeeps.hasBase hbase) (hws.keeps hkeeps hbase)

theorem WrittenRecords.keeps (hkeeps : r.Keeps r') : ∀ {depth type ds elements kind},
    r.HasBase type kind → WrittenRecords r locale limit depth type ds elements →
    WrittenRecords r' locale limit depth type ds elements
  | _, _, _, _, _, _, .nil => .nil
  | _, _, _, _, _, hbase, .cons hw hws => .cons (hw.keeps hkeeps hbase) (hws.keeps hkeeps hbase)

theorem WrittenRecord.keeps (hkeeps : r.Keeps r') : ∀ {depth type fields body kind},
    r.HasBase type kind → WrittenRecord r locale limit depth type fields body →
    WrittenRecord r' locale limit depth type fields body
  | _, _, _, _, _, hbase, .intro hdepth hd hshape hfits hfields =>
    .intro hdepth (hkeeps.definition _ _ hd) hshape (hkeeps.fits hbase hd hfits)
      (hkeeps.schema_eq hbase hd ▸ hfields.keeps hkeeps)

theorem WrittenFields.keeps (hkeeps : r.Keeps r') : ∀ {depth s ds vs},
    WrittenFields r locale limit depth s ds vs → WrittenFields r' locale limit depth s ds vs
  | _, _, _, _, .nil => .nil
  | _, _, _, _, .cons hslot harray hwritten hrest =>
    .cons hslot harray (hwritten.keeps hkeeps) (hrest.keeps hkeeps)

end

/-- Types that the registry did not have leave alone what can be converted: it still can be, with
the same result. -/
theorem Registry.conversions_extend (g more : Registry)
    (hdisjoint : ∀ id, more.contains id = true → g.contains id = false) (s : Settings)
    (type : NodeId) :
    (∀ v d, (Variant.decode s v type).eval g.resolver = .ok d →
      (Variant.decode s v type).eval (g.extend more).resolver = .ok d) ∧
    ∀ d v, (Plant.Datum.encode s d type).eval g.resolver = .ok v →
      (Plant.Datum.encode s d type).eval (g.extend more).resolver = .ok v := by
  have hkeeps := keeps_extend hdisjoint
  simp only [Variant.decode_eval_eq_ok_iff, Plant.Datum.encode_eval_eq_ok_iff]
  exact ⟨fun v d h => h.keeps hkeeps, fun d v h => h.keeps hkeeps⟩

def Tank.additions : Registry :=
  (Registry.empty.register ⟨.numeric 2 1, "Pump", .record,
    [⟨"inside", vessel, false, true⟩]⟩).registerSubtype (.numeric 2 2) tank

theorem Registry.conversions_extend_tank :
    (∀ id, Tank.additions.contains id = true → Tank.registry.contains id = false) ∧
      (Tank.value.decode .standard Tank.tank).eval Tank.registry.resolver = .ok Tank.image ∧
      (Tank.value.decode .standard Tank.tank).eval
        (Tank.registry.extend Tank.additions).resolver = .ok Tank.image := by
  have hids : ∀ id ∈ Tank.additions.ids, Tank.registry.contains id = false := by decide
  have hdisjoint : ∀ id, Tank.additions.contains id = true → Tank.registry.contains id = false :=
    fun id hid => hids id (mem_ids_of_contains hid)
  have hdecode : (Tank.value.decode .standard Tank.tank).eval Tank.registry.resolver =
      .ok Tank.image := by cbv
  exact ⟨hdisjoint, hdecode, (conversions_extend Tank.registry Tank.additions hdisjoint .standard
    Tank.tank).1 Tank.value Tank.image hdecode⟩

end UaBridge
