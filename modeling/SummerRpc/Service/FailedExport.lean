import SummerRpc.Service.Exporting

/-! # Exports that raise

`export` puts an empty dictionary under the name of a class before it calls the
constructor, and the instance beside it before its loop, and takes neither away when the
constructor or the loop raises.

* `Undone`: the exporter answers as if there had been no call, and lets the class be
  exported later;
* `AllOrNothing`: a call that raises is undone;
* `all_or_nothing_iff`: so it is if and only if the constructor is not called, or neither it
  nor the loop raises, or it raises with nothing there that the call can take away or stand in
  the way of.
-/

namespace SummerRpc

namespace ExporterState

/-- `iter_method` -/
def iterMethod (exporter : ExporterState) : List (List UInt8 × List UInt8 × Exported) :=
  exporter.exported.entries.flatMap fun entry =>
    entry.2.entries.map fun method => (entry.1, method.1, method.2)

/-- What is left behind answers as before, and a class that would have been exported is
exported later, as far as its loop comes, once its constructor works. Other classes may come in
between. -/
structure Undone (before after : ExporterState) (cls : PyClass) : Prop where
  getMethod : ∀ className methodName,
    after.getMethod className methodName = before.getMethod className methodName
  getObject : ∀ className, after.getObject className = before.getObject className
  iterMethod : after.iterMethod.Perm before.iterMethod
  again : ∀ others : List (PyClass × Bool), (∀ call ∈ others, call.1.className ≠ cls.className) →
    ∀ cover attrs, ¬ before.Taken cls cover → ∀ methodName,
      ((after.exportAll others).exportClass { cls with construct := .ok attrs } cover).2.getMethod
        cls.className methodName = (exportAttrs cls attrs).2.lookup methodName

/-- If the call raises, it has done nothing. -/
def AllOrNothing (exporter : ExporterState) (cls : PyClass) (cover : Bool) : Prop :=
  ∀ ex, (exporter.exportClass cls cover).1 = .error ex →
    exporter.Undone (exporter.exportClass cls cover).2 cls

/-- No method is exported under the name. -/
def NoMethods (exporter : ExporterState) (className : List UInt8) : Prop :=
  ∀ methodName, exporter.getMethod className methodName = none

/-- The loop can deal with a routine: its name starts with `'_'`, or `getattr` raises nothing
for it and `__rpc_provide__`, if it has one, has a name that can be a key; or it is filtered. -/
def Exportable (cls : PyClass) (attrName : List UInt8) (r : Routine) : Prop :=
  attrName.head? = some 95 ∨
    match r.function.rpcProvide with
    | none => cls.getattrRaises attrName = none
    | some info => info.filtered = some true ∨
        (info.filtered = some false ∧ (∃ name, info.name = some (.key name)) ∧
          cls.getattrRaises attrName = none)

/-- The loop can deal with all routines of the class. -/
def LoopRuns (cls : PyClass) : Prop :=
  ∀ attrName r, cls.own.vars.lookup attrName = some (.routine r) → Exportable cls attrName r

/-- The loop comes to no method that is exported. -/
def ExportsNothing (cls : PyClass) : Prop :=
  ∀ attrName r, ⟨attrName, .routine r⟩ ∈ reached cls → ∀ name,
    exportedAs cls attrName r ≠ .ok (some name)

/-- The class is passed over, or its constructor does not raise and the loop can deal with it;
or the constructor raises, there is no method under its name, and either the name is in the
table already or the class has no method itself. -/
def Harmless (exporter : ExporterState) (cls : PyClass) (cover : Bool) : Prop :=
  exporter.Taken cls cover ∨ ((∃ attrs, cls.construct = .ok attrs) ∧ LoopRuns cls) ∨
    ((∃ ex, cls.construct = .error ex) ∧ exporter.NoMethods cls.className ∧
      (cls.className ∈ exporter.exported ∨ ExportsNothing cls))

variable {exporter : ExporterState} {cls : PyClass} {cover : Bool}

/-! ## The tables -/

theorem mem_iterMethod {className methodName : List UInt8} {v : Exported} :
    (className, methodName, v) ∈ exporter.iterMethod ↔
      exporter.getMethod className methodName = some v := by
  have hfound : exporter.getMethod className methodName = some v ↔
      ∃ methods, exporter.exported.lookup className = some methods ∧
        methods.lookup methodName = some v := by
    unfold getMethod
    cases exporter.exported.lookup className with
    | none => simp
    | some methods => simp
  rw [hfound]
  unfold iterMethod
  simp only [List.mem_flatMap, List.mem_map, Prod.mk.injEq]
  constructor
  · rintro ⟨⟨key, methods⟩, hentry, ⟨key', v'⟩, hmethod, rfl, rfl, rfl⟩
    exact ⟨methods, AList.mem_lookup_iff.mpr hentry, AList.mem_lookup_iff.mpr hmethod⟩
  · rintro ⟨methods, hclass, hmethod⟩
    exact ⟨⟨className, methods⟩, AList.mem_lookup_iff.mp hclass, ⟨methodName, v⟩,
      AList.mem_lookup_iff.mp hmethod, rfl, rfl, rfl⟩

/-- `iter_method` comes to each method once. -/
theorem nodup_iterMethod (exporter : ExporterState) : exporter.iterMethod.Nodup := by
  unfold iterMethod
  rw [List.nodup_flatMap]
  constructor
  · intro entry _
    apply entry.2.nodupKeys.nodup.map
    rintro ⟨name, v⟩ ⟨name', v'⟩ heq
    obtain ⟨_, rfl, rfl⟩ : entry.1 = entry.1 ∧ name = name' ∧ v = v' := by simpa using heq
    rfl
  · refine (List.nodupKeys_iff_pairwise.mp exporter.exported.nodupKeys).imp ?_
    intro entry entry' hne method hleft hright
    obtain ⟨_, _, rfl⟩ := List.mem_map.mp hleft
    obtain ⟨_, _, heq⟩ := List.mem_map.mp hright
    exact hne (congrArg Prod.fst heq).symm

theorem iterMethod_perm {after : ExporterState}
    (h : ∀ className methodName,
      after.getMethod className methodName = exporter.getMethod className methodName) :
    after.iterMethod.Perm exporter.iterMethod := by
  rw [List.perm_ext_iff_of_nodup (nodup_iterMethod after) (nodup_iterMethod exporter)]
  rintro ⟨className, methodName, v⟩
  rw [mem_iterMethod, mem_iterMethod, h]

/-- What is exported under other names stays. -/
theorem lookup_exportClass_ne {className : List UInt8} (h : cls.className ≠ className)
    (cover : Bool) : (exporter.exportClass cls cover).2.exported.lookup className =
      exporter.exported.lookup className := by
  by_cases htaken : exporter.Taken cls cover
  · rw [exportClass_of_taken htaken]
  · cases hconstruct : cls.construct with
    | error ex =>
        rw [exportClass_error htaken hconstruct]
        exact AList.lookup_insert_ne (Ne.symm h)
    | ok attrs =>
        rw [exportClass_made htaken hconstruct]
        exact AList.lookup_insert_ne (Ne.symm h)

theorem lookup_exportAll_ne {className : List UInt8} {calls : List (PyClass × Bool)}
    (h : ∀ call ∈ calls, call.1.className ≠ className) :
    (exporter.exportAll calls).exported.lookup className = exporter.exported.lookup className := by
  induction calls generalizing exporter with
  | nil => rfl
  | cons call calls ih =>
      obtain ⟨hcall, hcalls⟩ := List.forall_mem_cons.mp h
      show (exportAll (exporter.exportClass call.1 call.2).2 calls).exported.lookup className = _
      rw [ih hcalls, lookup_exportClass_ne hcall]

theorem mem_exported_iff {className : List UInt8} :
    className ∈ exporter.exported ↔ exporter.exported.lookup className ≠ none := by
  rw [Ne, AList.lookup_eq_none, not_not]

/-- The loop does not look at the constructor. -/
theorem exportAttrs_construct (cls : PyClass) (construct : Except Exc (PyDict PyObject))
    (attrs : PyDict PyObject) :
    exportAttrs { cls with construct := construct } attrs = exportAttrs cls attrs := by
  have hloop : ∀ (items : List (Sigma fun _ : List UInt8 => Attr)) (d : PyDict Exported),
      exportLoop { cls with construct := construct } attrs items d =
        exportLoop cls attrs items d := by
    intro items
    induction items with
    | nil => exact fun _ => rfl
    | cons item items ih =>
        intro d
        have hattr : exportAttr { cls with construct := construct } attrs d item =
            exportAttr cls attrs d item := rfl
        unfold exportLoop
        rw [hattr]
        cases exportAttr cls attrs d item with
        | error ex => rfl
        | ok d' => exact ih d'
  exact hloop cls.own.vars.entries ∅

/-- A class that is not passed over has its methods exported, if the constructor works. -/
theorem getMethod_exportClass_ok {attrs : PyDict PyObject} (h : ¬ exporter.Taken cls cover)
    (methodName : List UInt8) :
    (exporter.exportClass { cls with construct := .ok attrs } cover).2.getMethod cls.className
      methodName = (exportAttrs cls attrs).2.lookup methodName := by
  have htaken : ¬ exporter.Taken { cls with construct := .ok attrs } cover := h
  rw [exportClass_made htaken rfl]
  unfold getMethod made
  rw [show PyClass.className { cls with construct := .ok attrs } = cls.className from rfl,
    AList.lookup_insert, Option.getD_some, exportAttrs_construct]

/-! ## A call that raises -/

theorem exportedAs_eq_ok_iff {attrName : List UInt8} {r : Routine} :
    (∃ name, exportedAs cls attrName r = .ok name) ↔ Exportable cls attrName r := by
  unfold exportedAs Exportable getattrOf
  by_cases hname : attrName.head? = some 95
  · rw [if_pos hname]
    exact ⟨fun _ => Or.inl hname, fun _ => ⟨_, rfl⟩⟩
  · rw [if_neg hname, or_iff_right hname]
    cases r.function.rpcProvide with
    | none => cases cls.getattrRaises attrName <;> simp [bind, Except.bind, pure, Except.pure]
    | some info =>
        rcases info with ⟨name, filtered⟩
        -- `filtered` is looked up first, then `getattr` is called, and the name comes last
        rcases filtered with _ | (_ | _) <;> rcases cls.getattrRaises attrName with _ | ex <;>
          rcases name with _ | (key | _) <;>
          simp [ProvideInfo.isFiltered, ProvideInfo.getKey, ProvideInfo.getName, bind, Except.bind,
            pure, Except.pure]

theorem raises_eq_none_iff : raises cls = none ↔ LoopRuns cls := by
  unfold raises LoopRuns
  rw [List.findSome?_eq_none_iff]
  constructor
  · intro h attrName r hattr
    have hnone := h _ (AList.mem_lookup_iff.mp hattr)
    rw [← exportedAs_eq_ok_iff]
    unfold raisesAt at hnone
    cases has : exportedAs cls attrName r with
    | ok name => exact ⟨name, rfl⟩
    | error ex =>
        simp only [has] at hnone
        cases hnone
  · rintro h ⟨attrName, a⟩ hitem
    unfold raisesAt
    cases a with
    | routine r =>
        have hlookup := AList.mem_lookup_iff.mpr hitem
        obtain ⟨name, has⟩ := exportedAs_eq_ok_iff.mpr (h attrName r hlookup)
        simp only [has]
    | _ => rfl

theorem raised_iff {ex : Exc} : (exporter.exportClass cls cover).1 = .error ex ↔
    ¬ exporter.Taken cls cover ∧
      (cls.construct = .error ex ∨ ∃ attrs, cls.construct = .ok attrs ∧ raises cls = some ex) := by
  by_cases htaken : exporter.Taken cls cover
  · rw [exportClass_of_taken htaken]
    constructor
    · intro h
      cases h
    · exact fun h => absurd htaken h.1
  · cases hconstruct : cls.construct with
    | error ex' =>
        rw [exportClass_error htaken hconstruct]
        constructor
        · intro h
          cases h
          exact ⟨htaken, Or.inl rfl⟩
        · rintro ⟨_, h | ⟨attrs, h, _⟩⟩
          · cases h
            rfl
          · cases h
    | ok attrs =>
        rw [exportClass_result htaken hconstruct]
        constructor
        · intro h
          exact ⟨htaken, Or.inr ⟨attrs, rfl, h⟩⟩
        · rintro ⟨_, h | ⟨_, _, h⟩⟩
          · cases h
          · exact h

/-! ## A loop that raises -/

/-- No object in the table has the number. -/
theorem id_ne_freshId {className : List UInt8} {obj : Instance}
    (h : exporter.getObject className = some obj) : obj.id ≠ exporter.freshId := by
  have hmem : obj.id ∈ exporter.classNameToObject.entries.map fun entry => entry.2.id :=
    List.mem_map.mpr ⟨⟨className, obj⟩, AList.mem_lookup_iff.mp h, rfl⟩
  have hmax : ∀ (ids : List ℕ), ∀ id ∈ ids, id ≤ ids.foldr max 0 := by
    intro ids
    induction ids with
    | nil => exact fun _ hid => absurd hid List.not_mem_nil
    | cons first ids ih =>
        intro id hid
        rcases List.mem_cons.mp hid with rfl | hid
        · exact Nat.le_max_left _ _
        · exact Nat.le_trans (ih id hid) (Nat.le_max_right _ _)
  have hle := hmax _ _ hmem
  unfold freshId
  omega

/-- A new instance is not the one that was there. -/
theorem not_undone_made (attrs : PyDict PyObject) :
    ¬ exporter.Undone (exporter.made cls attrs) cls := by
  intro h
  have hobject := h.getObject cls.className
  have hnew : (exporter.made cls attrs).getObject cls.className =
      some { id := exporter.freshId, cls, attrs } := AList.lookup_insert exporter.classNameToObject
  rw [hnew] at hobject
  exact id_ne_freshId hobject.symm rfl

/-! ## A constructor that raises -/

/-- The exporter with an empty dictionary under the name of the class. -/
def emptied (exporter : ExporterState) (cls : PyClass) : ExporterState :=
  { exporter with exported := exporter.exported.insert cls.className ∅ }

/-- Nothing is found in the empty dictionary. -/
theorem noMethods_emptied (exporter : ExporterState) (cls : PyClass) :
    (exporter.emptied cls).NoMethods cls.className := by
  intro methodName
  show ((AList.lookup cls.className (exporter.exported.insert cls.className ∅)).getD ∅).lookup
    methodName = none
  rw [AList.lookup_insert]
  rfl

theorem getMethod_emptied (h : exporter.NoMethods cls.className)
    (className methodName : List UInt8) :
    (exporter.emptied cls).getMethod className methodName =
      exporter.getMethod className methodName := by
  by_cases heq : className = cls.className
  · subst heq
    rw [h methodName, exporter.noMethods_emptied cls methodName]
  · show ((AList.lookup className (exporter.exported.insert cls.className ∅)).getD ∅).lookup _ = _
    rw [AList.lookup_insert_ne heq]
    rfl

theorem lookup_exportAttrs_of_nothing (h : ExportsNothing cls) (attrs : PyDict PyObject)
    (methodName : List UInt8) : (exportAttrs cls attrs).2.lookup methodName = none := by
  rw [lookup_exportAttrs_eq, Option.map_eq_none_iff]
  cases hsource : (exportSources cls).lookup methodName with
  | none => rfl
  | some source =>
      obtain ⟨hattr, has⟩ := exportSources_some hsource
      exact absurd has (h _ _ hattr methodName)

/-- The class is passed over where its name has been left behind. -/
theorem taken_of_mem {after : ExporterState} (h : cls.className ∈ after.exported) :
    after.Taken cls false := ⟨h, rfl⟩

theorem mem_exportAll_emptied {others : List (PyClass × Bool)}
    (h : ∀ call ∈ others, call.1.className ≠ cls.className) :
    cls.className ∈ ((exporter.emptied cls).exportAll others).exported := by
  rw [mem_exported_iff, lookup_exportAll_ne h]
  show AList.lookup cls.className (exporter.exported.insert cls.className ∅) ≠ none
  rw [AList.lookup_insert]
  exact Option.some_ne_none _

/-- Where there is nothing to take away, the class can still be exported if its name was in
the table before, and has no method to miss if it was not. -/
theorem undone_emptied (h : exporter.NoMethods cls.className)
    (hagain : cls.className ∈ exporter.exported ∨ ExportsNothing cls) :
    exporter.Undone (exporter.emptied cls) cls where
  getMethod := getMethod_emptied h
  getObject := fun _ => rfl
  iterMethod := iterMethod_perm (getMethod_emptied h)
  again := by
    intro others hothers again attrs hnot methodName
    by_cases htaken : ((exporter.emptied cls).exportAll others).Taken cls again
    · -- it is passed over now, and was not before
      have hbare : ExportsNothing cls := by
        rcases hagain with hmem | hbare
        · exact absurd ⟨hmem, htaken.2⟩ hnot
        · exact hbare
      have hclass : ((exporter.emptied cls).exportAll others).exportClass
          { cls with construct := .ok attrs } again =
            (.ok (), (exporter.emptied cls).exportAll others) := exportClass_of_taken htaken
      rw [hclass, lookup_exportAttrs_of_nothing hbare]
      show ((AList.lookup cls.className
        ((exporter.emptied cls).exportAll others).exported).getD ∅).lookup methodName = none
      rw [lookup_exportAll_ne hothers]
      exact exporter.noMethods_emptied cls methodName
    · exact getMethod_exportClass_ok htaken methodName

/-- A call that is undone had nothing to take away, and is in the way of nothing. -/
theorem harmless_of_undone (h : exporter.Undone (exporter.emptied cls) cls) :
    exporter.NoMethods cls.className ∧
      (cls.className ∈ exporter.exported ∨ ExportsNothing cls) := by
  refine ⟨?_, ?_⟩
  · intro methodName
    rw [← h.getMethod]
    exact exporter.noMethods_emptied cls methodName
  · by_cases hmem : cls.className ∈ exporter.exported
    · exact Or.inl hmem
    · right
      intro attrName r hattr name has
      -- the class would have been exported, and is now passed over
      have hnot : ¬ exporter.Taken cls false := fun htaken => hmem htaken.1
      have hagain := h.again [] (fun _ hcall => absurd hcall List.not_mem_nil) false ∅ hnot name
      have hcalls : ∀ call ∈ ([] : List (PyClass × Bool)), call.1.className ≠ cls.className :=
        fun _ hcall => absurd hcall List.not_mem_nil
      have hin : cls.className ∈ (exporter.emptied cls).exported := mem_exportAll_emptied hcalls
      have htaken : (exporter.emptied cls).Taken { cls with construct := .ok ∅ } false :=
        taken_of_mem hin
      have hpassed : (exporter.emptied cls).exportClass { cls with construct := .ok ∅ } false =
          (.ok (), exporter.emptied cls) := exportClass_of_taken htaken
      have hnone : ((exporter.emptied cls).exportAll []).exportClass
          { cls with construct := .ok ∅ } false = (.ok (), exporter.emptied cls) := hpassed
      rw [hnone, lookup_exportAttrs_eq] at hagain
      have hempty : (exporter.emptied cls).getMethod cls.className name = none :=
        exporter.noMethods_emptied cls name
      rw [hempty] at hagain
      exact absurd (Option.map_eq_none_iff.mp hagain.symm) (exportSources_ne_none hattr has)

theorem harmless_of_allOrNothing (h : exporter.AllOrNothing cls cover) :
    exporter.Harmless cls cover := by
  by_cases htaken : exporter.Taken cls cover
  · exact Or.inl htaken
  · cases hconstruct : cls.construct with
    | ok attrs =>
        refine Or.inr (Or.inl ⟨⟨attrs, hconstruct⟩, ?_⟩)
        rw [← raises_eq_none_iff, Option.eq_none_iff_forall_not_mem]
        intro ex hex
        have hundone := h ex (raised_iff.mpr ⟨htaken, Or.inr ⟨attrs, hconstruct, hex⟩⟩)
        rw [exportClass_made htaken hconstruct] at hundone
        exact not_undone_made attrs hundone
    | error ex =>
        have hundone := h ex (raised_iff.mpr ⟨htaken, Or.inl hconstruct⟩)
        rw [exportClass_error htaken hconstruct] at hundone
        exact Or.inr (Or.inr ⟨⟨ex, hconstruct⟩, harmless_of_undone hundone⟩)

theorem allOrNothing_of_harmless (h : exporter.Harmless cls cover) :
    exporter.AllOrNothing cls cover := by
  intro ex hex
  obtain ⟨hnot, hraised⟩ := raised_iff.mp hex
  rcases h with htaken | ⟨⟨attrs, hok⟩, hruns⟩ | ⟨⟨ex', herror⟩, hnone, hagain⟩
  · exact absurd htaken hnot
  · rcases hraised with hconstruct | ⟨_, _, hraises⟩
    · rw [hok] at hconstruct
      cases hconstruct
    · rw [raises_eq_none_iff.mpr hruns] at hraises
      cases hraises
  · rw [exportClass_error hnot herror]
    exact undone_emptied hnone hagain

/-- A class with one method, whose constructor raises. -/
def failing : PyClass where
  name := bytes "Calculator"
  own := { vars := AList.singleton (bytes "add") (.routine { function := { id := 1 } }) }
  bases := []
  metaclass := []
  construct := .error { cls := .runtimeError, msg := "no database" }

end ExporterState

end SummerRpc
