import Mathlib.Data.List.TakeWhile
import SummerRpc.Service.Classes

/-! # The exporter

`exporter.py`: the methods of a class are taken from its own dictionary, and bound to an
instance of it.

* `ExporterState.exportClass`: `export`, with what it leaves behind when the constructor
  or its loop raises;
* `reached`, `exportSources`: the attributes the loop comes to, and those it exports;
* `lookup_exportAttrs`: what is exported of a class without `__rpc_provide__`;
* `getMethod_toExporter`: the server finds the methods that are exported.
-/

namespace SummerRpc

/-- What `getattr(instance, name)` gives for a routine of the class: a method of it bound to
the instance, or what the constructor has put in its place. -/
inductive Exported where
  | bound (r : Routine)
  | other (object : PyObject)
deriving DecidableEq, Repr

def Exported.toMethod : Exported → Method
  | .bound r => r.function.method
  | .other object => object.method

/-- An instance: which one, its class, and what the constructor has put into it. -/
structure Instance where
  id : ℕ
  cls : PyClass
  attrs : PyDict PyObject

/-- `Exporter` -/
structure ExporterState where
  exported : PyDict (PyDict Exported)
  classNameToObject : PyDict Instance

namespace ExporterState

/-- What `getattr(instance, attr_name)` gives for a routine of the class. -/
def getattrInstance (attrs : PyDict PyObject) (attrName : List UInt8) (r : Routine) : Exported :=
  match attrs.lookup attrName with
  | some object => .other object
  | none => .bound r

/-- `getattr(instance, attr_name)`, which may raise. -/
def getattrOf (cls : PyClass) (attrs : PyDict PyObject) (attrName : List UInt8) (r : Routine) :
    Except Exc Exported :=
  match cls.getattrRaises attrName with
  | some ex => .error ex
  | none => .ok (getattrInstance attrs attrName r)

/-- One round of the loop of `export`: what is not a routine, or has a name that starts
with `'_'`, is passed over. -/
def exportAttr (cls : PyClass) (attrs : PyDict PyObject) (d : PyDict Exported)
    (item : Sigma fun _ : List UInt8 => Attr) : Except Exc (PyDict Exported) :=
  match item.2 with
  | .routine r =>
    if item.1.head? = some 95 then .ok d
    else
      match getProvide (.routine r) with
      | some info => do
        if ← info.isFiltered then return d
        let value ← getattrOf cls attrs item.1 r
        let name ← info.getKey
        return d.insert name value
      | none => do
        let value ← getattrOf cls attrs item.1 r
        return d.insert item.1 value
  | _ => .ok d

/-- The loop of `export`: what it raises, and the dictionary it leaves. -/
def exportLoop (cls : PyClass) (attrs : PyDict PyObject) :
    List (Sigma fun _ : List UInt8 => Attr) → PyDict Exported → Option Exc × PyDict Exported
  | [], d => (none, d)
  | item :: items, d =>
    match exportAttr cls attrs d item with
    | .error ex => (some ex, d)
    | .ok d => exportLoop cls attrs items d

/-- The loop over the dictionary of the class. -/
def exportAttrs (cls : PyClass) (attrs : PyDict PyObject) : Option Exc × PyDict Exported :=
  exportLoop cls attrs cls.own.vars.entries ∅

/-- A number that no object in the table has. -/
def freshId (exporter : ExporterState) : ℕ :=
  (exporter.classNameToObject.entries.map fun entry => entry.2.id).foldr max 0 + 1

/-- `class_name in self._exported and not cover`: the class is passed over. -/
def Taken (exporter : ExporterState) (cls : PyClass) (cover : Bool) : Prop :=
  cls.className ∈ exporter.exported ∧ cover = false

instance (exporter : ExporterState) (cls : PyClass) (cover : Bool) :
    Decidable (exporter.Taken cls cover) := inferInstanceAs (Decidable (_ ∧ _))

/-- `export(cls, cover)`. The dictionary and the instance are in the tables before the loop. -/
def exportClass (exporter : ExporterState) (cls : PyClass) (cover : Bool) :
    Except Exc Unit × ExporterState :=
  if exporter.Taken cls cover then (.ok (), exporter)
  else
    match cls.construct with
    | .error ex =>
      (.error ex, { exporter with exported := exporter.exported.insert cls.className ∅ })
    | .ok attrs =>
      let (raised, methods) := exportAttrs cls attrs
      let result := match raised with
        | some ex => .error ex
        | none => .ok ()
      (result, {
        exported := exporter.exported.insert cls.className methods
        classNameToObject :=
          exporter.classNameToObject.insert cls.className { id := exporter.freshId, cls, attrs } })

/-- Calls of `export`, one after the other. -/
def exportAll (exporter : ExporterState) (calls : List (PyClass × Bool)) : ExporterState :=
  calls.foldl (fun exporter call => (exporter.exportClass call.1 call.2).2) exporter

/-- `get_method` -/
def getMethod (exporter : ExporterState) (className methodName : List UInt8) : Option Exported :=
  ((exporter.exported.lookup className).getD ∅).lookup methodName

/-- `get_object` -/
def getObject (exporter : ExporterState) (className : List UInt8) : Option Instance :=
  exporter.classNameToObject.lookup className

/-- `HeartBeatRequest` -/
def heartBeatRequest : PyClass where
  name := bytes "HeartBeatRequest"
  own := { vars := AList.singleton (bytes "send") (.routine { function := { id := 0 } }) }
  bases := []
  metaclass := []
  construct := .ok ∅

/-- `Exporter(install_heartbeat)` -/
def new (installHeartbeat : Bool) : ExporterState :=
  let empty : ExporterState := { exported := ∅, classNameToObject := ∅ }
  if installHeartbeat then (empty.exportClass heartBeatRequest false).2 else empty

/-! ## What is exported -/

/-- The routine that is exported under its own name. -/
def publicRoutine (attrName : List UInt8) : Attr → Option Routine
  | .routine r => if attrName.head? = some 95 then none else some r
  | _ => none

theorem publicRoutine_eq_some {attrName : List UInt8} {a : Attr} {r : Routine} :
    publicRoutine attrName a = some r ↔ a = .routine r ∧ attrName.head? ≠ some 95 := by
  cases a with
  | routine r' =>
      by_cases hname : attrName.head? = some 95
      · simp [publicRoutine, hname]
      · simp [publicRoutine, hname]
  | _ => simp [publicRoutine]

/-! ## Where it comes from -/

/-- The name under which a routine of the class is exported, if it is, or what is raised. -/
def exportedAs (cls : PyClass) (attrName : List UInt8) (r : Routine) :
    Except Exc (Option (List UInt8)) :=
  if attrName.head? = some 95 then .ok none
  else
    match r.function.rpcProvide with
    | some info => do
      if ← info.isFiltered then return none
      let _ ← getattrOf cls ∅ attrName r
      let name ← info.getKey
      return some name
    | none => do
      let _ ← getattrOf cls ∅ attrName r
      return some attrName

/-- What the loop raises when it comes to an attribute. -/
def raisesAt (cls : PyClass) (item : Sigma fun _ : List UInt8 => Attr) : Option Exc :=
  match item.2 with
  | .routine r =>
    match exportedAs cls item.1 r with
    | .error ex => some ex
    | .ok _ => none
  | _ => none

/-- What the loop raises for a class. -/
def raises (cls : PyClass) : Option Exc := cls.own.vars.entries.findSome? (raisesAt cls)

/-- The attributes of the class before the first for which the loop raises. -/
def reached (cls : PyClass) : List (Sigma fun _ : List UInt8 => Attr) :=
  cls.own.vars.entries.takeWhile fun item => (raisesAt cls item).isNone

/-- One round of the loop of `export`, for the names only. -/
def addSource (cls : PyClass) (sources : PyDict (List UInt8 × Routine))
    (item : Sigma fun _ : List UInt8 => Attr) : PyDict (List UInt8 × Routine) :=
  match item.2 with
  | .routine r =>
    match exportedAs cls item.1 r with
    | .ok (some name) => sources.insert name (item.1, r)
    | _ => sources
  | _ => sources

/-- The attribute that is exported under each name: the last one the loop comes to. -/
def exportSources (cls : PyClass) : PyDict (List UInt8 × Routine) :=
  (reached cls).foldl (addSource cls) ∅

/-- What `getattr` gives for the attribute. -/
def ofSource (attrs : PyDict PyObject) (source : List UInt8 × Routine) : Exported :=
  getattrInstance attrs source.1 source.2

section Sources

variable {cls : PyClass}

theorem addSource_some {attrName name : List UInt8} {r : Routine}
    (h : exportedAs cls attrName r = .ok (some name)) (sources : PyDict (List UInt8 × Routine)) :
    addSource cls sources ⟨attrName, .routine r⟩ = sources.insert name (attrName, r) := by
  simp only [addSource, h]

theorem addSource_none {attrName : List UInt8} {r : Routine}
    (h : ∀ name, exportedAs cls attrName r ≠ .ok (some name))
    (sources : PyDict (List UInt8 × Routine)) :
    addSource cls sources ⟨attrName, .routine r⟩ = sources := by
  cases has : exportedAs cls attrName r with
  | error ex => simp only [addSource, has]
  | ok name =>
      cases name with
      | none => simp only [addSource, has]
      | some name => exact absurd has (h name)

/-- What the constructor has put into the instance does not matter for the name. -/
theorem exportAttr_routine (attrs : PyDict PyObject) (d : PyDict Exported) (attrName : List UInt8)
    (r : Routine) : exportAttr cls attrs d ⟨attrName, .routine r⟩ =
      (exportedAs cls attrName r).map fun name =>
        (name.map fun name => d.insert name (ofSource attrs (attrName, r))).getD d := by
  unfold exportAttr exportedAs getProvide getattrOf
  by_cases hname : attrName.head? = some 95
  · simp only [if_pos hname]
    rfl
  · simp only [if_neg hname]
    cases r.function.rpcProvide with
    | none => cases cls.getattrRaises attrName <;> rfl
    | some info =>
        simp only
        cases info.isFiltered with
        | error ex => rfl
        | ok filtered =>
            cases filtered with
            | true => rfl
            | false =>
                cases cls.getattrRaises attrName with
                | some ex => rfl
                | none => cases info.getKey <;> rfl

theorem lookup_insert_map {sources : PyDict (List UInt8 × Routine)} {d : PyDict Exported}
    {attrs : PyDict PyObject}
    (h : ∀ name, d.lookup name = (sources.lookup name).map (ofSource attrs))
    (key : List UInt8) (source : List UInt8 × Routine) (name : List UInt8) :
    (d.insert key (ofSource attrs source)).lookup name =
      ((sources.insert key source).lookup name).map (ofSource attrs) := by
  by_cases heq : name = key
  · subst heq
    rw [AList.lookup_insert, AList.lookup_insert]
    rfl
  · rw [AList.lookup_insert_ne heq, AList.lookup_insert_ne heq]
    exact h name

/-- One round of the loop, when it raises and when it does not. -/
theorem exportAttr_cases {attrs : PyDict PyObject} {d : PyDict Exported}
    {sources : PyDict (List UInt8 × Routine)}
    (h : ∀ name, d.lookup name = (sources.lookup name).map (ofSource attrs))
    (item : Sigma fun _ : List UInt8 => Attr) :
    (∃ ex, raisesAt cls item = some ex ∧ exportAttr cls attrs d item = .error ex) ∨
      (raisesAt cls item = none ∧ ∃ d', exportAttr cls attrs d item = .ok d' ∧
        ∀ name, d'.lookup name =
          ((addSource cls sources item).lookup name).map (ofSource attrs)) := by
  obtain ⟨attrName, a⟩ := item
  cases a with
  | routine r =>
      rw [exportAttr_routine]
      unfold raisesAt
      cases has : exportedAs cls attrName r with
      | error ex => exact Or.inl ⟨ex, by simp only [has], rfl⟩
      | ok name =>
          refine Or.inr ⟨by simp only [has], _, rfl, ?_⟩
          cases name with
          | none =>
              rw [addSource_none (by rw [has]; rintro name ⟨⟩)]
              exact h
          | some key =>
              rw [addSource_some has]
              exact lookup_insert_map h key (attrName, r)
  | _ => exact Or.inr ⟨rfl, d, rfl, h⟩

/-- The loop raises what the first attribute raises that does, and leaves what it has exported
before. -/
theorem exportLoop_spec (attrs : PyDict PyObject) (items : List (Sigma fun _ : List UInt8 => Attr))
    {d : PyDict Exported} {sources : PyDict (List UInt8 × Routine)}
    (h : ∀ name, d.lookup name = (sources.lookup name).map (ofSource attrs)) :
    (exportLoop cls attrs items d).1 = items.findSome? (raisesAt cls) ∧
      ∀ name, (exportLoop cls attrs items d).2.lookup name =
        (((items.takeWhile fun item => (raisesAt cls item).isNone).foldl (addSource cls)
          sources).lookup name).map (ofSource attrs) := by
  induction items generalizing d sources with
  | nil => exact ⟨rfl, h⟩
  | cons item items ih =>
      unfold exportLoop
      rcases exportAttr_cases h item with ⟨ex, hraises, hex⟩ | ⟨hraises, d', hd', hlookup⟩
      · rw [hex, List.findSome?_cons, hraises, List.takeWhile_cons, hraises]
        exact ⟨rfl, h⟩
      · rw [hd', List.findSome?_cons, hraises, List.takeWhile_cons, hraises]
        exact ih hlookup

/-- Nothing has been exported before the loop. -/
theorem lookup_exportAttrs_empty (attrs : PyDict PyObject) (name : List UInt8) :
    (∅ : PyDict Exported).lookup name =
      ((∅ : PyDict (List UInt8 × Routine)).lookup name).map (ofSource attrs) := by
  rw [AList.lookup_empty, AList.lookup_empty]
  rfl

theorem raises_exportAttrs (attrs : PyDict PyObject) : (exportAttrs cls attrs).1 = raises cls :=
  (exportLoop_spec attrs cls.own.vars.entries (lookup_exportAttrs_empty attrs)).1

/-- What is found under a name is made of the attribute that is exported under it. -/
theorem lookup_exportAttrs_eq (cls : PyClass) (attrs : PyDict PyObject) (name : List UInt8) :
    (exportAttrs cls attrs).2.lookup name =
      ((exportSources cls).lookup name).map (ofSource attrs) :=
  (exportLoop_spec attrs cls.own.vars.entries (lookup_exportAttrs_empty attrs)).2 name

/-- The attribute is one of the class's own that the loop comes to. -/
theorem exportSources_some {name attrName : List UInt8} {r : Routine}
    (h : (exportSources cls).lookup name = some (attrName, r)) :
    ⟨attrName, .routine r⟩ ∈ reached cls ∧ exportedAs cls attrName r = .ok (some name) := by
  have hloop : ∀ (items : List (Sigma fun _ : List UInt8 => Attr))
      (sources : PyDict (List UInt8 × Routine)),
      (items.foldl (addSource cls) sources).lookup name = some (attrName, r) →
      (⟨attrName, .routine r⟩ ∈ items ∧ exportedAs cls attrName r = .ok (some name)) ∨
        sources.lookup name = some (attrName, r) := by
    intro items
    induction items with
    | nil => exact fun sources h => Or.inr h
    | cons item items ih =>
        obtain ⟨key, a⟩ := item
        intro sources hfound
        rw [List.foldl_cons] at hfound
        rcases ih _ hfound with ⟨hmem, has⟩ | hlookup
        · exact Or.inl ⟨List.mem_cons_of_mem _ hmem, has⟩
        · cases a with
          | routine r' =>
              by_cases hsome : ∃ other, exportedAs cls key r' = .ok (some other)
              · obtain ⟨other, has⟩ := hsome
                rw [addSource_some has] at hlookup
                by_cases heq : name = other
                · subst heq
                  have hsource := Option.some.inj ((AList.lookup_insert _).symm.trans hlookup)
                  obtain ⟨rfl, rfl⟩ := Prod.mk.inj hsource
                  exact Or.inl ⟨List.mem_cons_self, has⟩
                · exact Or.inr ((AList.lookup_insert_ne heq).symm.trans hlookup)
              · rw [addSource_none fun other has => hsome ⟨other, has⟩] at hlookup
                exact Or.inr hlookup
          | _ => exact Or.inr hlookup
  rcases hloop (reached cls) ∅ h with hfound | hempty
  · exact hfound
  · rw [AList.lookup_empty] at hempty
    cases hempty

theorem lookup_of_reached {attrName : List UInt8} {a : Attr} (h : ⟨attrName, a⟩ ∈ reached cls) :
    cls.own.vars.lookup attrName = some a :=
  AList.mem_lookup_iff.mpr (List.takeWhile_subset _ h)

/-- Under the name of a routine that is exported there is one. -/
theorem exportSources_ne_none {name attrName : List UInt8} {r : Routine}
    (hattr : ⟨attrName, .routine r⟩ ∈ reached cls)
    (has : exportedAs cls attrName r = .ok (some name)) :
    (exportSources cls).lookup name ≠ none := by
  have hkeep : ∀ (items : List (Sigma fun _ : List UInt8 => Attr))
      (sources : PyDict (List UInt8 × Routine)), sources.lookup name ≠ none →
      (items.foldl (addSource cls) sources).lookup name ≠ none := by
    intro items
    induction items with
    | nil => exact fun sources h => h
    | cons item items ih =>
        obtain ⟨key, a⟩ := item
        intro sources h
        apply ih
        cases a with
        | routine r' =>
            by_cases hsome : ∃ other, exportedAs cls key r' = .ok (some other)
            · obtain ⟨other, has⟩ := hsome
              rw [addSource_some has]
              by_cases heq : name = other
              · subst heq
                rw [AList.lookup_insert]
                exact Option.some_ne_none _
              · rw [AList.lookup_insert_ne heq]
                exact h
            · rw [addSource_none fun other has => hsome ⟨other, has⟩]
              exact h
        | _ => exact h
  obtain ⟨front, back, hitems⟩ := List.append_of_mem hattr
  unfold exportSources
  rw [hitems, List.foldl_append, List.foldl_cons]
  apply hkeep
  rw [addSource_some has, AList.lookup_insert]
  exact Option.some_ne_none _

/-! ## Classes without `__rpc_provide__` -/

/-- Without `__rpc_provide__`, a routine is exported under its own name, unless that starts
with `'_'`. -/
theorem exportedAs_of_bare {attrName : List UInt8} {r : Routine}
    (hraises : cls.getattrRaises attrName = none) (hbare : r.function.rpcProvide = none) :
    exportedAs cls attrName r =
      .ok (if attrName.head? = some 95 then none else some attrName) := by
  by_cases hname : attrName.head? = some 95
  · simp [exportedAs, hname]
  · simp only [exportedAs, hname, hbare, if_false, getattrOf, hraises]
    rfl

/-- Its own dictionary has no `__rpc_provide__`, and `getattr` raises nothing. -/
structure Plain (cls : PyClass) : Prop where
  bare : ∀ name a, cls.own.vars.lookup name = some a → a.Bare
  getattrRaises : ∀ name, cls.getattrRaises name = none

/-- The loop comes to all attributes of such a class. -/
theorem Plain.reached (h : Plain cls) : reached cls = cls.own.vars.entries := by
  unfold ExporterState.reached
  rw [List.takeWhile_eq_self_iff]
  rintro ⟨attrName, a⟩ hitem
  unfold raisesAt
  cases a with
  | routine r =>
      have hbare := h.bare attrName _ (AList.mem_lookup_iff.mpr hitem)
      simp only [exportedAs_of_bare (h.getattrRaises attrName) hbare]
      rfl
  | _ => rfl

/-- What is exported of it: its own routines, under their own names, but for those that start
with `'_'`. -/
theorem lookup_exportAttrs {attrs : PyDict PyObject} (h : Plain cls) (name : List UInt8) :
    (exportAttrs cls attrs).2.lookup name =
      ((cls.own.vars.lookup name).bind (publicRoutine name)).map (getattrInstance attrs name) := by
  have has_iff : ∀ {attrName key : List UInt8} {r : Routine},
      cls.own.vars.lookup attrName = some (.routine r) →
      (exportedAs cls attrName r = .ok (some key) ↔ attrName.head? ≠ some 95 ∧ attrName = key) := by
    intro attrName key r hattr
    rw [exportedAs_of_bare (h.getattrRaises attrName) (h.bare _ _ hattr)]
    by_cases hname : attrName.head? = some 95 <;> simp [hname]
  have hsource : (exportSources cls).lookup name =
      ((cls.own.vars.lookup name).bind (publicRoutine name)).map fun r => (name, r) := by
    ext ⟨attrName, r⟩
    constructor
    · intro hfound
      obtain ⟨hmem, has⟩ := exportSources_some hfound
      have hattr := lookup_of_reached hmem
      obtain ⟨hname, rfl⟩ := (has_iff hattr).mp has
      rw [hattr]
      simp [publicRoutine, hname]
    · intro hfound
      obtain ⟨r', hr', hpair⟩ := Option.map_eq_some_iff.mp hfound
      cases hpair
      obtain ⟨a, hattr, hpublic⟩ := Option.bind_eq_some_iff.mp hr'
      obtain ⟨rfl, hname⟩ := publicRoutine_eq_some.mp hpublic
      have has := (has_iff hattr).mpr ⟨hname, rfl⟩
      have hmem : ⟨name, .routine r⟩ ∈ reached cls := by
        rw [h.reached]
        exact AList.mem_lookup_iff.mp hattr
      obtain ⟨⟨key, r'⟩, hsome⟩ := Option.ne_none_iff_exists'.mp (exportSources_ne_none hmem has)
      -- no other attribute is exported under that name
      obtain ⟨hkeymem, has'⟩ := exportSources_some hsome
      have hkey := lookup_of_reached hkeymem
      obtain ⟨_, rfl⟩ := (has_iff hkey).mp has'
      rw [hattr] at hkey
      cases hkey
      exact hsome
  rw [lookup_exportAttrs_eq, hsource, Option.map_map]
  rfl

end Sources

/-! ## A call of `export` -/

variable {exporter : ExporterState} {cls : PyClass} {cover : Bool}

theorem exportClass_of_taken (h : exporter.Taken cls cover) :
    exporter.exportClass cls cover = (.ok (), exporter) := if_pos h

theorem exportClass_error {ex : Exc} (h : ¬ exporter.Taken cls cover)
    (hconstruct : cls.construct = .error ex) :
    exporter.exportClass cls cover =
      (.error ex, { exporter with exported := exporter.exported.insert cls.className ∅ }) := by
  unfold exportClass
  rw [if_neg h, hconstruct]

/-- The exporter with the methods and the instance of a class whose constructor works. -/
def made (exporter : ExporterState) (cls : PyClass) (attrs : PyDict PyObject) : ExporterState where
  exported := exporter.exported.insert cls.className (exportAttrs cls attrs).2
  classNameToObject :=
    exporter.classNameToObject.insert cls.className { id := exporter.freshId, cls, attrs }

theorem exportClass_made {attrs : PyDict PyObject} (h : ¬ exporter.Taken cls cover)
    (hconstruct : cls.construct = .ok attrs) :
    (exporter.exportClass cls cover).2 = exporter.made cls attrs := by
  unfold exportClass
  rw [if_neg h, hconstruct]
  rfl

theorem exportClass_result {attrs : PyDict PyObject} (h : ¬ exporter.Taken cls cover)
    (hconstruct : cls.construct = .ok attrs) (ex : Exc) :
    (exporter.exportClass cls cover).1 = .error ex ↔ raises cls = some ex := by
  unfold exportClass
  rw [if_neg h, hconstruct, ← raises_exportAttrs attrs]
  simp only
  cases (exportAttrs cls attrs).1 with
  | some ex' =>
      constructor
      · intro heq
        cases heq
        rfl
      · intro heq
        cases heq
        rfl
  | none =>
      constructor
      · intro heq
        cases heq
      · intro heq
        cases heq

/-- What is found under the name of a class that has been exported. -/
theorem getMethod_exportClass (hplain : Plain cls) (h : ¬ exporter.Taken cls cover)
    (name : List UInt8) (v : Exported) :
    (exporter.exportClass cls cover).2.getMethod cls.className name = some v ↔
      ∃ attrs r, cls.construct = .ok attrs ∧ cls.own.vars.lookup name = some (.routine r) ∧
        name.head? ≠ some 95 ∧ getattrInstance attrs name r = v := by
  unfold getMethod
  cases hconstruct : cls.construct with
  | error ex =>
      rw [exportClass_error h hconstruct, AList.lookup_insert, Option.getD_some,
        AList.lookup_empty]
      constructor
      · intro hfound
        cases hfound
      · rintro ⟨attrs, r, hok, _⟩
        cases hok
  | ok attrs =>
      rw [exportClass_made h hconstruct, made, AList.lookup_insert, Option.getD_some,
        lookup_exportAttrs hplain, Option.map_eq_some_iff]
      constructor
      · rintro ⟨r, hr, hv⟩
        obtain ⟨a, ha, hpublic⟩ := Option.bind_eq_some_iff.mp hr
        obtain ⟨rfl, hname⟩ := publicRoutine_eq_some.mp hpublic
        exact ⟨attrs, r, rfl, ha, hname, hv⟩
      · rintro ⟨attrs', r, hok, ha, hname, hv⟩
        cases hok
        exact ⟨r, Option.bind_eq_some_iff.mpr ⟨_, ha, publicRoutine_eq_some.mpr ⟨rfl, hname⟩⟩, hv⟩

/-! ## What the server finds -/

/-- The exporter, as the server asks it. -/
def toExporter (exporter : ExporterState) : Exporter where
  exported := exporter.exported.entries.map fun entry =>
    (entry.1, entry.2.entries.map fun method => (method.1, method.2.toMethod))

theorem lookup_map {α β : Type} (f : α → β) (name : List UInt8) (d : PyDict α) :
    Exporter.lookup (d.entries.map fun entry => (entry.1, f entry.2)) (.str name) =
      (d.lookup name).map f := by
  unfold Exporter.lookup AList.lookup
  induction d.entries with
  | nil => rfl
  | cons entry entries ih =>
      obtain ⟨key, value⟩ := entry
      by_cases heq : key = name
      · subst heq
        rw [List.dlookup_cons_eq, List.map_cons, List.find?_cons_of_pos]
        · rfl
        · simp [PyVal.eqStr]
      · rw [List.dlookup_cons_ne _ _ (Ne.symm heq), List.map_cons, List.find?_cons_of_neg]
        · exact ih
        · simpa [PyVal.eqStr] using Ne.symm heq

/-- The server finds the methods that are exported. -/
theorem getMethod_toExporter (S : PyVal.SpecialMethods) (className methodName : List UInt8) :
    exporter.toExporter.getMethod S (.str className) (.str methodName) =
      .ok ((exporter.getMethod className methodName).map Exported.toMethod) := by
  have hclass := lookup_map (fun methods : PyDict Exported =>
    methods.entries.map fun method => (method.1, method.2.toMethod)) className exporter.exported
  have hmethod := fun methods : PyDict Exported =>
    lookup_map Exported.toMethod methodName methods
  show Except.ok (Exporter.lookup ((Exporter.lookup exporter.toExporter.exported
    (.str className)).getD []) (.str methodName)) = _
  unfold toExporter getMethod
  rw [hclass]
  cases exporter.exported.lookup className with
  | none => rfl
  | some methods => exact congrArg Except.ok (hmethod methods)

end ExporterState

end SummerRpc
