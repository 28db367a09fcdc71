import UaBridge.Proofs.Schema.TypeDocument

namespace UaBridge

variable {α β ε κ ν : Type}

inductive IsLast (P : α → Prop) : List α → α → Prop
  | here {a l} : P a → (∀ b ∈ l, ¬P b) → IsLast P (a :: l) a
  | there {a b l} : IsLast P l a → IsLast P (b :: l) a

namespace IsLast
variable {P Q : α → Prop} {l : List α} {a b : α}

theorem mem (h : IsLast P l a) : a ∈ l ∧ P a := by
  induction h with
  | here ha _ => exact ⟨List.mem_cons_self, ha⟩
  | there _ ih => exact ⟨List.mem_cons_of_mem _ ih.1, ih.2⟩

theorem unique (h : IsLast P l a) (h' : IsLast P l b) : a = b := by
  induction h with
  | here ha hnone =>
    cases h' with
    | here => rfl
    | there h' => exact absurd h'.mem.2 (hnone b h'.mem.1)
  | there h ih =>
    cases h' with
    | here _ hnone => exact absurd h.mem.2 (hnone _ h.mem.1)
    | there h' => exact ih h'

theorem congr (h : IsLast P l a) (hPQ : ∀ b ∈ l, P b ↔ Q b) : IsLast Q l a := by
  induction h with
  | here ha hnone =>
    rw [List.forall_mem_cons] at hPQ
    exact .here (hPQ.1.1 ha) fun b hb hQ => hnone b hb ((hPQ.2 b hb).2 hQ)
  | there _ ih => exact .there (ih (List.forall_mem_cons.1 hPQ).2)

end IsLast

theorem foldlM_last {step : β → α → Except ε β} (look : β → κ → Option ν) (Key : α → κ → Prop)
    (Val : α → ν → Prop) {l : List α} {b b' : β} (h : l.foldlM step b = .ok b')
    (hstep : ∀ b a b', step b a = .ok b' → ∃ k v, (∀ k', Key a k' ↔ k' = k) ∧ Val a v ∧
      look b' k = some v ∧ ∀ k' ≠ k, look b' k' = look b k') (k : κ) :
    (∃ a v, IsLast (Key · k) l a ∧ Val a v ∧ look b' k = some v) ∨
      (∀ a ∈ l, ¬Key a k) ∧ look b' k = look b k := by
  induction l generalizing b with
  | nil =>
    cases h
    exact .inr ⟨by simp, rfl⟩
  | cons a l ih =>
    rw [List.foldlM_cons, Except.bind_eq_ok_iff] at h
    obtain ⟨b₁, hb₁, h⟩ := h
    obtain ⟨k₁, v₁, hkey, hval, hself, hother⟩ := hstep b a b₁ hb₁
    obtain ⟨a', v, hlast, hv, hlook⟩ | ⟨hnone, hlook⟩ := ih h
    · exact .inl ⟨a', v, .there hlast, hv, hlook⟩
    · by_cases hk : k = k₁
      · subst hk
        exact .inl ⟨a, v₁, .here ((hkey k).2 rfl) hnone, hval, hlook.trans hself⟩
      · exact .inr ⟨List.forall_mem_cons.2 ⟨mt (hkey k).1 hk, hnone⟩,
          hlook.trans (hother k hk)⟩

namespace TypeEntry

def Denotes (t : TypeEntry) (id : NodeId) : Prop := NodeId.parse t.id = .ok id

structure Describes (t : TypeEntry) (d : Definition) : Prop where
  name : d.name = t.name
  union : d.isUnion = t.union
  fields : List.Forall₂
    (fun (e : FieldEntry) f => f.name = e.name ∧ f.isArray = e.isArray ∧ f.optional = e.optional)
    t.fields d.fields

theorem Denotes.unique {t : TypeEntry} {id id' : NodeId} (h : t.Denotes id) (h' : t.Denotes id') :
    id = id' :=
  Except.ok.inj (h.symm.trans h')

end TypeEntry

/-- The registry defines what is declared `under` some id, and as its last entry says. -/
structure Registry.Declares (g : Registry) (types : List TypeEntry)
    (under : TypeEntry → NodeId → Prop) : Prop where
  defined_iff : ∀ id, (∃ d, g.definition? id = some d) ↔ ∃ t ∈ types, under t id
  last : ∀ id d, g.definition? id = some d →
    d.id = id ∧ ∃ t, IsLast (under · id) types t ∧ t.Describes d

theorem Registry.Declares.congr {g : Registry} {types : List TypeEntry}
    {under under' : TypeEntry → NodeId → Prop} (h : g.Declares types under)
    (hunder : ∀ t ∈ types, ∀ id, under t id ↔ under' t id) : g.Declares types under' where
  defined_iff id := by
    rw [h.defined_iff]
    exact exists_congr fun t => and_congr_right fun ht => hunder t ht id
  last id d hd := by
    obtain ⟨hid, t, hlast, hdescribes⟩ := h.last id d hd
    exact ⟨hid, t, hlast.congr fun u hu => hunder u hu id, hdescribes⟩

namespace TypeDocument

/-- What an entry is declared under: if the text of its id is a name that the document declares, the
id of the last type of that name, and else its own. -/
inductive DeclaredUnder (doc : TypeDocument) (t : TypeEntry) (id : NodeId) : Prop
  | named {u} : IsLast (·.name = Text.trimmed t.id) doc.types u → u.Denotes id →
      DeclaredUnder doc t id
  | denoted : (∀ u ∈ doc.types, u.name ≠ Text.trimmed t.id) → t.Denotes id →
      DeclaredUnder doc t id

variable {doc : TypeDocument} {n : Names} {g g' : Registry} {t : TypeEntry} {l : LinkEntry}
  {id : NodeId}

theorem ofDocument_eq_ok_iff {text : String} :
    NodeId.ofDocument text = .ok id ↔ NodeId.parse text = .ok id :=
  Except.mapError_eq_ok_iff

theorem exists_denotes_of_names (h : doc.names = .ok n) : ∀ t ∈ doc.types, ∃ id, t.Denotes id := by
  intro t ht
  obtain ⟨m, m', hstep⟩ := Except.exists_step_of_foldlM_eq_ok h t ht
  obtain ⟨id, hid, -⟩ := Except.bind_eq_ok_iff.1 hstep
  exact ⟨id, ofDocument_eq_ok_iff.1 hid⟩

theorem find?_names (h : doc.names = .ok n) (name : String) :
    (∃ u id, IsLast (·.name = name) doc.types u ∧ u.Denotes id ∧ n.find? name = some id) ∨
      (∀ u ∈ doc.types, u.name ≠ name) ∧
        n.find? name = (Assoc.ofList wellKnown).find? name := by
  refine foldlM_last Assoc.find? (fun u name => u.name = name) TypeEntry.Denotes h ?_ name
  intro m u m' hstep
  obtain ⟨id, hid, heq⟩ := Except.bind_eq_ok_iff.1 hstep
  cases heq
  exact ⟨u.name, id, fun _ => eq_comm, ofDocument_eq_ok_iff.1 hid, Assoc.find?_insert_self,
    fun _ hne => Assoc.find?_insert_of_ne hne⟩

theorem Names.resolve_eq_ok_iff (h : doc.names = .ok n) (ht : t ∈ doc.types) :
    n.resolve t.id = .ok id ↔ doc.DeclaredUnder t id := by
  obtain ⟨own, hown⟩ := exists_denotes_of_names h t ht
  obtain ⟨u, id', hlast, hdenotes, hfind⟩ | ⟨hnone, hfind⟩ := find?_names h (Text.trimmed t.id)
  · have hresolve : n.resolve t.id = .ok id' := by
      rw [resolve]
      simp only [hfind]
    rw [hresolve, Except.ok.injEq]
    constructor
    · rintro rfl
      exact .named hlast hdenotes
    · intro hunder
      cases hunder with
      | named hlast' hdenotes' =>
        obtain rfl := hlast.unique hlast'
        exact hdenotes.unique hdenotes'
      | denoted hnone => exact absurd hlast.mem.2 (hnone u hlast.mem.1)
  · -- The text has an equals sign, so it is no well-known name.
    have hmem := NodeId.separator_mem_trimmed hown
    have hplain : (Assoc.ofList wellKnown).find? (Text.trimmed t.id) = none := by
      rw [← Assoc.contains_eq_false_iff, ← Bool.not_eq_true]
      exact fun hname => arePlain_wellKnown _ hname hmem
    rw [resolve]
    simp only [hfind, hplain, List.contains_iff_mem.2 hmem, if_true, ofDocument_eq_ok_iff,
      NodeId.parse_trimmed]
    constructor
    · exact .denoted hnone
    · intro hunder
      cases hunder with
      | named hlast _ => exact absurd hlast.mem.2 (hnone _ hlast.mem.1)
      | denoted _ hdenotes => exact hdenotes

theorem toField_eq_ok {e : FieldEntry} {f : Field} (h : FieldEntry.toField n e = .ok f) :
    f.name = e.name ∧ f.isArray = e.isArray ∧ f.optional = e.optional := by
  obtain ⟨type, -, heq⟩ := Except.bind_eq_ok_iff.1 h
  cases heq
  exact ⟨rfl, rfl, rfl⟩

theorem addType_eq_ok (h : addType n g t = .ok g') :
    ∃ id d, n.resolve t.id = .ok id ∧ d.id = id ∧ t.Describes d ∧
      g'.definitions = g.definitions.insert id d := by
  obtain ⟨text, name, parent, union, entries⟩ := t
  obtain ⟨id, linked, fields, hid, hlinked, hfields, rfl⟩ :
      ∃ id, ∃ linked : Registry, ∃ fields, n.resolve text = .ok id ∧
        linked.definitions = g.definitions ∧
        entries.mapM (FieldEntry.toField n) = .ok fields ∧
        linked.register ⟨id, name, if union then .union else .record, fields⟩ = g' := by
    cases parent with
    | none =>
      simp only [addType, Except.bind_eq_ok_iff] at h
      obtain ⟨id, hid, linked, hlinked, fields, hfields, heq⟩ := h
      cases hlinked
      exact ⟨id, g, fields, hid, rfl, hfields, Except.ok.inj heq⟩
    | some parent =>
      simp only [addType, Except.bind_eq_ok_iff, Except.map_eq_ok_iff] at h
      obtain ⟨id, hid, linked, ⟨p, -, rfl⟩, fields, hfields, heq⟩ := h
      exact ⟨id, g.registerSubtype id p, fields, hid, rfl, hfields, Except.ok.inj heq⟩
  refine ⟨id, ⟨id, name, if union then .union else .record, fields⟩, hid, rfl, ⟨rfl, ?_, ?_⟩, ?_⟩
  · cases union <;> rfl
  · exact (Except.mapM_eq_ok_iff.1 hfields).imp fun _ _ => toField_eq_ok
  · simp only [Registry.register, hlinked]

theorem addLink_keeps (h : addLink n g l = .ok g') : g'.definitions = g.definitions := by
  simp only [addLink, Except.bind_eq_ok_iff] at h
  obtain ⟨child, -, parent, -, heq⟩ := h
  cases heq
  rfl

theorem definition?_of_build (h : doc.build = .ok g) (id : NodeId) :
    (∃ t d, IsLast (doc.DeclaredUnder · id) doc.types t ∧ (d.id = id ∧ t.Describes d) ∧
      g.definition? id = some d) ∨
    (∀ t ∈ doc.types, ¬doc.DeclaredUnder t id) ∧ g.definition? id = none := by
  simp only [build, Except.bind_eq_ok_iff] at h
  obtain ⟨n, hn, g₀, htypes, hlinks⟩ := h
  have hstep (g : Registry) (t : TypeEntry) (g' : Registry) (h : addType n g t = .ok g') :
      ∃ k d, (∀ k', n.resolve t.id = .ok k' ↔ k' = k) ∧
        (n.resolve t.id = .ok d.id ∧ t.Describes d) ∧ g'.definition? k = some d ∧
        ∀ k' ≠ k, g'.definition? k' = g.definition? k' := by
    obtain ⟨id, d, hid, rfl, hdescribes, hdefinitions⟩ := addType_eq_ok h
    refine ⟨d.id, d, fun k' => ?_, ⟨hid, hdescribes⟩, ?_, fun k' hne => ?_⟩
    · rw [hid, Except.ok.injEq, eq_comm]
    · rw [Registry.definition?, hdefinitions, Assoc.find?_insert_self]
    · rw [Registry.definition?, hdefinitions, Assoc.find?_insert_of_ne hne, Registry.definition?]
  have hkeeps : g.definitions = g₀.definitions :=
    Except.foldlM_keeps Registry.definitions (fun _ _ _ => addLink_keeps) hlinks
  have hlast := foldlM_last Registry.definition?
    (fun (t : TypeEntry) (id : NodeId) => n.resolve t.id = .ok id)
    (fun (t : TypeEntry) (d : Definition) => n.resolve t.id = .ok d.id ∧ t.Describes d)
    htypes hstep id
  rw [Registry.definition?, hkeeps]
  obtain ⟨t, d, hlast, ⟨hid, hdescribes⟩, hd⟩ | ⟨hnone, hd⟩ := hlast
  · refine .inl ⟨t, d, hlast.congr fun u hu => Names.resolve_eq_ok_iff hn hu, ⟨?_, hdescribes⟩, hd⟩
    exact Except.ok.inj (hid.symm.trans hlast.mem.2)
  · exact .inr ⟨fun t ht => mt (Names.resolve_eq_ok_iff hn ht).2 (hnone t ht), hd⟩

theorem declares_of_build (h : doc.build = .ok g) :
    g.Declares doc.types doc.DeclaredUnder where
  defined_iff id := by
    obtain ⟨t, d, hlast, -, hd⟩ | ⟨hnone, hd⟩ := definition?_of_build h id
    · exact iff_of_true ⟨d, hd⟩ ⟨t, hlast.mem⟩
    · simpa [hd] using hnone
  last id d hd := by
    obtain ⟨t, d', hlast, ⟨hid, hdescribes⟩, hd'⟩ | ⟨-, hnone⟩ := definition?_of_build h id
    · obtain rfl := Option.some.inj (hd.symm.trans hd')
      exact ⟨hid, t, hlast, hdescribes⟩
    · cases hd.symm.trans hnone

theorem exists_declaredUnder (h : doc.build = .ok g) (ht : t ∈ doc.types) :
    ∃ id, doc.DeclaredUnder t id := by
  simp only [build, Except.bind_eq_ok_iff] at h
  obtain ⟨n, hn, g₀, htypes, -⟩ := h
  obtain ⟨g₁, g₂, hstep⟩ := Except.exists_step_of_foldlM_eq_ok htypes t ht
  obtain ⟨id, d, hid, -⟩ := addType_eq_ok hstep
  exact ⟨id, (Names.resolve_eq_ok_iff hn ht).1 hid⟩

theorem declaredUnder_iff_denotes (h : doc.build = .ok g) (ht : t ∈ doc.types)
    (hnames : ∀ u ∈ doc.types, u.name = Text.trimmed t.id → ∀ id, u.Denotes id → t.Denotes id) :
    doc.DeclaredUnder t id ↔ t.Denotes id := by
  have hdenotes {id : NodeId} (hunder : doc.DeclaredUnder t id) : t.Denotes id := by
    cases hunder with
    | named hlast hu => exact hnames _ hlast.mem.1 hlast.mem.2 id hu
    | denoted _ ht => exact ht
  refine ⟨hdenotes, fun hid => ?_⟩
  obtain ⟨id', hunder⟩ := exists_declaredUnder h ht
  rwa [hid.unique (hdenotes hunder)]

/-- Every type that a document declares is defined, as the last entry under its id says. An entry
goes under its own id unless the document has that text for the name of another type. -/
theorem build_declares (doc : TypeDocument) (g : Registry) (h : doc.build = .ok g) :
    g.Declares doc.types doc.DeclaredUnder ∧
      ((∀ t ∈ doc.types, ∀ u ∈ doc.types, u.name = Text.trimmed t.id →
          ∀ id, u.Denotes id → t.Denotes id) →
        g.Declares doc.types TypeEntry.Denotes) := by
  refine ⟨declares_of_build h, fun hnames => (declares_of_build h).congr fun t ht id => ?_⟩
  exact declaredUnder_iff_denotes h ht (hnames t ht)

end TypeDocument

namespace Gates

def document : TypeDocument where
  types :=
    [⟨"ns=1;i=1", "Valve", none, false, [⟨"open", "Boolean", false, false⟩]⟩,
      ⟨"ns=1;s=Gate", "Gate", some "Valve", false, [⟨"inner", "Valve", true, true⟩]⟩,
      ⟨" ns=1;i=1 ", "Latch", none, true, []⟩]
  links := []

def registry : Registry :=
  ((Registry.empty.register ⟨.numeric 1 1, "Valve", .record, []⟩).registerSubtype
    (.string 1 "Gate") (.numeric 1 1)).register
      ⟨.string 1 "Gate", "Gate", .record, [⟨"inner", .numeric 1 1, true, true⟩]⟩
    |>.register ⟨.numeric 1 1, "Latch", .union, []⟩

/-- The name of the first type is the id of the second one. -/
def crossed : TypeDocument where
  types := [⟨"ns=1;i=1", "ns=1;i=2", none, false, []⟩, ⟨"ns=1;i=2", "Valve", none, false, []⟩]
  links := []

end Gates

theorem TypeDocument.build_declares_gates :
    Gates.document.build = .ok Gates.registry ∧
      Gates.registry.Declares Gates.document.types Gates.document.DeclaredUnder ∧
      Gates.registry.Declares Gates.document.types TypeEntry.Denotes := by
  have h : Gates.document.build = .ok Gates.registry := by rfl
  have hnames : ∀ t ∈ Gates.document.types, ∀ u ∈ Gates.document.types,
      u.name ≠ Text.trimmed t.id := by decide
  obtain ⟨hunder, hdenotes⟩ := build_declares Gates.document Gates.registry h
  exact ⟨h, hunder, hdenotes fun t ht u hu hname => absurd hname (hnames t ht u hu)⟩

/-- The second type takes the place of the first one, and its own id has no definition. -/
theorem TypeDocument.build_crosses :
    ∃ g, Gates.crossed.build = .ok g ∧
      ¬g.Declares Gates.crossed.types TypeEntry.Denotes := by
  refine ⟨Registry.empty.register ⟨.numeric 1 1, "Valve", .record, []⟩, by rfl, fun h => ?_⟩
  obtain ⟨d, hd⟩ := (h.defined_iff (.numeric 1 2)).2
    ⟨⟨"ns=1;i=2", "Valve", none, false, []⟩, by simp [Gates.crossed], by rfl⟩
  cases hd

end UaBridge
