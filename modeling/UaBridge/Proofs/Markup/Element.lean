import UaBridge.Markup.Element

namespace UaBridge.Markup

def Node.mapNamed (key : String) (f : Element → Element) : Node → Node
  | .element name attributes children =>
    if name = key then (f ⟨name, attributes, children⟩).toNode
    else .element name attributes children
  | n => n

namespace Element
variable {key key' : String} {f : Element → Element} {g : String → String} {s : String}

def mapNamed (key : String) (f : Element → Element) (e : Element) : Element :=
  { e with children := e.children.map (Node.mapNamed key f) }

def mapAttribute (key : String) (g : String → String) (e : Element) : Element :=
  { e with attributes := e.attributes.map fun a => if a.1 = key then (a.1, g a.2) else a }

def without (key : String) (e : Element) : Element :=
  { e with children := e.children.filter fun n => n.element?.all (·.name ≠ key) }

def withText (s : String) (e : Element) : Element :=
  match e.children with
  | .text _ :: rest => { e with children := .text s :: rest }
  | children => { e with children := .text s :: children }

variable (e : Element)

@[simp] theorem name_mapNamed : (e.mapNamed key f).name = e.name := rfl

@[simp] theorem name_mapAttribute : (e.mapAttribute key g).name = e.name := rfl

@[simp] theorem name_withText : (e.withText s).name = e.name := by
  rw [withText]
  split <;> rfl

@[simp] theorem text_mapAttribute : (e.mapAttribute key g).text = e.text := rfl

@[simp] theorem text_withText : (e.withText s).text = s := by
  rw [withText]
  split <;> rfl

@[simp] theorem attribute?_mapNamed : (e.mapNamed key f).attribute? key' = e.attribute? key' := rfl

@[simp] theorem attribute?_withText : (e.withText s).attribute? key = e.attribute? key := by
  rw [withText]
  split <;> rfl

theorem attribute?_mapAttribute : (e.mapAttribute key g).attribute? key' =
    (e.attribute? key').map (if key' = key then g else id) := by
  have hkey : ((·.1 == key') ∘ fun a : String × String => if a.1 = key then (a.1, g a.2) else a) =
      (·.1 == key') := by
    funext a
    rw [Function.comp_apply]
    split <;> rfl
  rw [attribute?, mapAttribute, List.find?_map, hkey, attribute?]
  cases h : e.attributes.find? (·.1 == key') with
  | none => rfl
  | some a =>
    obtain rfl : a.1 = key' := by simpa using List.find?_some h
    by_cases ha : a.1 = key <;> simp [ha]

@[simp] theorem attribute?_mapAttribute_self :
    (e.mapAttribute key g).attribute? key = (e.attribute? key).map g := by
  rw [attribute?_mapAttribute, if_pos rfl]

theorem attribute?_mapAttribute_of_ne (h : key' ≠ key) :
    (e.mapAttribute key g).attribute? key' = e.attribute? key' := by
  rw [attribute?_mapAttribute, if_neg h, Option.map_id, id]

@[simp] theorem named_mapAttribute : (e.mapAttribute key g).named key' = e.named key' := rfl

theorem element?_mapNamed (n : Node) : (n.mapNamed key f).element? =
    n.element?.map fun e => if e.name = key then f e else e := by
  cases n with
  | element name attributes children =>
    rw [Node.mapNamed, Node.element?, Option.map_some]
    split <;> rfl
  | text s => rfl
  | aside => rfl

theorem named_mapNamed (hf : ∀ e, (f e).name = e.name) :
    (e.mapNamed key f).named key' = (e.named key').map (if key' = key then f else id) := by
  have hkey : ((·.name == key') ∘ fun e : Element => if e.name = key then f e else e) =
      (·.name == key') := by
    funext e
    rw [Function.comp_apply]
    split
    next => rw [hf]
    next => rfl
  have helement : Node.element? ∘ Node.mapNamed key f = fun n =>
      n.element?.map fun e => if e.name = key then f e else e := funext element?_mapNamed
  rw [named, mapNamed, List.filterMap_map, helement, ← List.map_filterMap, List.filter_map, hkey,
    named]
  refine List.map_congr_left fun e he => ?_
  obtain rfl : e.name = key' := by simpa using (List.mem_filter.1 he).2
  by_cases h : e.name = key <;> simp [h]

theorem named_mapNamed_self (hf : ∀ e, (f e).name = e.name) :
    (e.mapNamed key f).named key = (e.named key).map f := by
  rw [named_mapNamed e hf, if_pos rfl]

theorem named_mapNamed_of_ne (hf : ∀ e, (f e).name = e.name) (h : key' ≠ key) :
    (e.mapNamed key f).named key' = e.named key' := by
  rw [named_mapNamed e hf, if_neg h, List.map_id]

theorem named_without : (e.without key).named key' = if key' = key then [] else e.named key' := by
  have helement :
      (fun n : Node => if n.element?.all (·.name ≠ key) = true then n.element? else none) =
        fun n => n.element?.filter (·.name ≠ key) := by
    funext n
    cases n.element? <;> simp [Option.filter]
  rw [named, without, List.filterMap_filter, helement, ← List.filter_filterMap, List.filter_filter,
    named]
  by_cases h : key' = key
  · rw [if_pos h, List.filter_eq_nil_iff]
    simp [h]
  · rw [if_neg h]
    refine List.filter_congr fun e _ => ?_
    by_cases hname : e.name = key' <;> simp [hname, h]

@[simp] theorem named_without_self : (e.without key).named key = [] := by
  rw [named_without, if_pos rfl]

theorem named_without_of_ne (h : key' ≠ key) : (e.without key).named key' = e.named key' := by
  rw [named_without, if_neg h]

end Element
end UaBridge.Markup
