import SummerRpc.Service.Exporting

/-! # Methods in subprocesses

A thread calls the method the exporter has stored. A subprocess is given the exported object,
and looks the requested name up in it once more (`WRAPPER` of `rpc_server.py`).

* `Instance.getattr`: attribute lookup in an instance;
* `Consistent`: the methods under the name of a class are those of the object under that
  name;
* `SamePaths`: both call the same method;
* `same_paths_iff`: so it is if and only if every method that is exported under another name
  than its own has that name in its object too.
-/

namespace SummerRpc

/-- What `getattr` gives for an attribute of an instance: what can be exported, or another
object. -/
inductive InstanceAttr where
  | exported (v : Exported)
  | object (a : Attr)
deriving DecidableEq, Repr

/-- The object in the dictionary of a class is asked for through an instance. -/
def Attr.viaInstance : Attr → InstanceAttr
  | .routine r => .exported (.bound r)
  | a => .object a

/-- What an instance of the class inherits under the name. The metaclass is not asked. -/
def PyClass.inherited (cls : PyClass) (name : List UInt8) : Option Attr :=
  (cls.own :: cls.bases).findSome? fun dict => dict.vars.lookup name

/-- `getattr(instance, name)`, if it raises nothing. -/
def Instance.getattr (obj : Instance) (name : List UInt8) : Option InstanceAttr :=
  match obj.cls.getattrRaises name with
  | some _ => none
  | none =>
    match obj.attrs.lookup name with
    | some object => some (.exported (.other object))
    | none => (obj.cls.inherited name).map Attr.viaInstance

/-- Both names stand for the same attribute: one object the constructor has put there under
both, or a routine of the class it has left alone. -/
def Instance.Alias (obj : Instance) (attrName name : List UInt8) (r : Routine) : Prop :=
  obj.cls.getattrRaises name = none ∧
    ((∃ object, obj.attrs.lookup attrName = some object ∧ obj.attrs.lookup name = some object) ∨
      (attrName ∉ obj.attrs ∧ name ∉ obj.attrs ∧ obj.cls.inherited name = some (.routine r)))

/-- `_invoke` gives the method to the process pool, if there is one. -/
def Exported.InSubprocess (v : Exported) : Prop :=
  v.toMethod.isCoroutine = false ∧ v.toMethod.runInSubprocess = some true

namespace ExporterState

/-- `WRAPPER(self._exporter.get_object(class_name), method_name, ...)`: what it calls. -/
def wrapped (exporter : ExporterState) (className methodName : List UInt8) : Option InstanceAttr :=
  (exporter.getObject className).bind fun obj => obj.getattr methodName

/-- What the process pool calls is what the thread pool would call. -/
def SamePaths (exporter : ExporterState) : Prop :=
  ∀ className methodName v, exporter.getMethod className methodName = some v → v.InSubprocess →
    exporter.wrapped className methodName = some (.exported v)

/-- A method for the process pool that is exported under another name than its own is found
under that name too. -/
def Aliased (exporter : ExporterState) : Prop :=
  ∀ className methodName obj attrName r, exporter.getMethod className methodName ≠ none →
    exporter.getObject className = some obj →
    (exportSources obj.cls).lookup methodName = some (attrName, r) →
    (getattrInstance obj.attrs attrName r).InSubprocess →
    attrName ≠ methodName → obj.Alias attrName methodName r

variable {exporter : ExporterState} {cls : PyClass} {cover : Bool}

/-! ## The two tables -/

/-- Under the name of a class there are no methods, or those of the object under that
name. -/
def Consistent (exporter : ExporterState) : Prop :=
  ∀ className methods, exporter.exported.lookup className = some methods →
    methods = ∅ ∨ ∃ obj, exporter.getObject className = some obj ∧
      methods = (exportAttrs obj.cls obj.attrs).2

theorem consistent_exportClass (h : exporter.Consistent) (cls : PyClass) (cover : Bool) :
    (exporter.exportClass cls cover).2.Consistent := by
  by_cases htaken : exporter.Taken cls cover
  · rw [exportClass_of_taken htaken]
    exact h
  · intro className methods hmethods
    by_cases heq : className = cls.className
    · subst heq
      cases hconstruct : cls.construct with
      | error ex =>
          rw [exportClass_error htaken hconstruct, AList.lookup_insert] at hmethods
          exact Or.inl (Option.some.inj hmethods).symm
      | ok attrs =>
          rw [exportClass_made htaken hconstruct, made, AList.lookup_insert] at hmethods
          rw [exportClass_made htaken hconstruct]
          refine Or.inr ⟨{ id := exporter.freshId, cls, attrs }, ?_,
            (Option.some.inj hmethods).symm⟩
          exact AList.lookup_insert exporter.classNameToObject
    · cases hconstruct : cls.construct with
      | error ex =>
          rw [exportClass_error htaken hconstruct, AList.lookup_insert_ne heq] at hmethods
          rw [exportClass_error htaken hconstruct]
          exact h className methods hmethods
      | ok attrs =>
          rw [exportClass_made htaken hconstruct, made, AList.lookup_insert_ne heq] at hmethods
          rw [exportClass_made htaken hconstruct]
          rcases h className methods hmethods with hempty | ⟨obj, hobj, hmade⟩
          · exact Or.inl hempty
          · exact Or.inr ⟨obj, (AList.lookup_insert_ne heq).trans hobj, hmade⟩

theorem consistent_exportAll (h : exporter.Consistent) (calls : List (PyClass × Bool)) :
    (exporter.exportAll calls).Consistent := by
  induction calls generalizing exporter with
  | nil => exact h
  | cons call calls ih => exact ih (consistent_exportClass h call.1 call.2)

theorem consistent_new (installHeartbeat : Bool) : (new installHeartbeat).Consistent := by
  have hempty : Consistent { exported := ∅, classNameToObject := ∅ } := by
    intro className methods h
    cases h
  cases installHeartbeat with
  | false => exact hempty
  | true => exact consistent_exportClass hempty heartBeatRequest false

/-- A method that is found has been made of an attribute of the object. -/
theorem source_of_getMethod (h : exporter.Consistent) {className methodName : List UInt8}
    {v : Exported} (hv : exporter.getMethod className methodName = some v) :
    ∃ obj attrName r, exporter.getObject className = some obj ∧
      (exportSources obj.cls).lookup methodName = some (attrName, r) ∧
      v = getattrInstance obj.attrs attrName r := by
  unfold getMethod at hv
  cases hmethods : exporter.exported.lookup className with
  | none =>
      rw [hmethods, Option.getD_none, AList.lookup_empty] at hv
      cases hv
  | some methods =>
      rw [hmethods, Option.getD_some] at hv
      rcases h className methods hmethods with rfl | ⟨obj, hobj, rfl⟩
      · rw [AList.lookup_empty] at hv
        cases hv
      · rw [lookup_exportAttrs_eq, Option.map_eq_some_iff] at hv
        obtain ⟨⟨attrName, r⟩, hsource, rfl⟩ := hv
        exact ⟨obj, attrName, r, hobj, hsource, rfl⟩

/-! ## Names of one attribute -/

/-- The names stand for the same attribute just when `getattr` gives the same for them. -/
theorem alias_iff (obj : Instance) (attrName name : List UInt8) (r : Routine) :
    obj.getattr name = some (.exported (getattrInstance obj.attrs attrName r)) ↔
      obj.Alias attrName name r := by
  have hroutine : ∀ a : Attr, a.viaInstance = .exported (.bound r) ↔ a = .routine r := by
    intro a
    cases a <;> simp [Attr.viaInstance]
  have hother : ∀ (a : Attr) (object : PyObject), a.viaInstance ≠ .exported (.other object) := by
    intro a object
    cases a <;> simp [Attr.viaInstance]
  unfold Instance.getattr Instance.Alias getattrInstance
  rw [← AList.lookup_eq_none, ← AList.lookup_eq_none]
  cases obj.cls.getattrRaises name with
  | some ex => simp
  | none =>
      cases obj.attrs.lookup name with
      | some object =>
          cases obj.attrs.lookup attrName with
          | some object' => simp [eq_comm]
          | none => simp
      | none =>
          cases obj.attrs.lookup attrName with
          | some object' => simp [hother]
          | none => simp [hroutine]

/-- `getattr` raises nothing for a routine that is exported. -/
theorem getattrRaises_of_exportedAs {attrName name : List UInt8} {r : Routine}
    (h : exportedAs cls attrName r = .ok (some name)) : cls.getattrRaises attrName = none := by
  cases hraises : cls.getattrRaises attrName with
  | none => rfl
  | some ex =>
      unfold exportedAs getattrOf at h
      rw [hraises] at h
      split at h
      · cases h
      · split at h
        · rename_i info _
          cases hfiltered : info.isFiltered with
          | error ex =>
              rw [hfiltered] at h
              cases h
          | ok filtered =>
              rw [hfiltered] at h
              cases filtered <;> cases h
        · cases h

/-- A routine of the class is found under its own name. -/
theorem alias_self {obj : Instance} {attrName : List UInt8} {r : Routine}
    (h : obj.cls.own.vars.lookup attrName = some (.routine r))
    (hraises : obj.cls.getattrRaises attrName = none) : obj.Alias attrName attrName r := by
  refine ⟨hraises, ?_⟩
  cases hattr : obj.attrs.lookup attrName with
  | some object => exact Or.inl ⟨object, rfl, rfl⟩
  | none =>
      have hnot := AList.lookup_eq_none.mp hattr
      refine Or.inr ⟨hnot, hnot, ?_⟩
      unfold PyClass.inherited
      rw [List.findSome?_cons, h]

theorem samePaths_of_aliased (h : exporter.Consistent) (haliased : exporter.Aliased) :
    exporter.SamePaths := by
  intro className methodName v hv hsub
  obtain ⟨obj, attrName, r, hobj, hsource, rfl⟩ := source_of_getMethod h hv
  unfold wrapped
  rw [hobj, Option.bind_some, alias_iff]
  by_cases heq : attrName = methodName
  · subst heq
    rcases exportSources_some hsource with ⟨hreached, has⟩
    exact alias_self (lookup_of_reached hreached) (getattrRaises_of_exportedAs has)
  · have hfound : exporter.getMethod className methodName ≠ none := by
      rw [hv]
      exact Option.some_ne_none _
    exact haliased className methodName obj attrName r hfound hobj hsource hsub heq

theorem aliased_of_samePaths (h : exporter.Consistent) (hsame : exporter.SamePaths) :
    exporter.Aliased := by
  intro className methodName obj attrName r hfound hobj hsource hsub _
  obtain ⟨v, hv⟩ := Option.ne_none_iff_exists'.mp hfound
  obtain ⟨obj', attrName', r', hobj', hsource', rfl⟩ := source_of_getMethod h hv
  rw [hobj] at hobj'
  cases hobj'
  rw [hsource] at hsource'
  cases hsource'
  have hwrapped := hsame className methodName _ hv hsub
  unfold wrapped at hwrapped
  rw [hobj, Option.bind_some, alias_iff] at hwrapped
  exact hwrapped

/-- Whatever classes have been exported, a subprocess calls the methods a thread would call,
if and only if every method for the process pool that is exported under another name than its
own has that name as well. -/
theorem same_paths_iff (installHeartbeat : Bool) (calls : List (PyClass × Bool)) :
    ((new installHeartbeat).exportAll calls).SamePaths ↔
      ((new installHeartbeat).exportAll calls).Aliased := by
  have hconsistent := consistent_exportAll (consistent_new installHeartbeat) calls
  exact ⟨aliased_of_samePaths hconsistent, samePaths_of_aliased hconsistent⟩

/-- A function for the process pool, which is exported as `g`. -/
def functionF : PyFunction where
  id := 1
  method := { runInSubprocess := some true }
  rpcProvide := some { name := some (.key (bytes "g")), filtered := some false }

/-- A function that is not exported. -/
def functionG : PyFunction where
  id := 2
  rpcProvide := some { name := some (.key (bytes "g")), filtered := some true }

/-- The one as `f`, and the other one as `g`. -/
def renamedVars : PyDict Attr :=
  (AList.singleton (bytes "f") (.routine { function := functionF })).insert (bytes "g")
    (.routine { function := functionG })

/-- The class of these. -/
def renamed : PyClass where
  name := bytes "Service"
  own := { vars := renamedVars }
  bases := []
  metaclass := []
  construct := .ok ∅

/-- A subprocess runs `g` when `f` is called. -/
theorem other_method_runs : ¬ ∀ installHeartbeat calls,
    ((new installHeartbeat).exportAll calls).SamePaths := by
  intro h
  have hsame := h true [(renamed, false)] (bytes "Service") (bytes "g")
    (.bound { function := functionF }) (by decide +kernel) ⟨rfl, rfl⟩
  revert hsame
  decide +kernel

end ExporterState

end SummerRpc
