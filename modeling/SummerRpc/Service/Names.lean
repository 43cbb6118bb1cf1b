import SummerRpc.Service.Exporting

/-! # Names on both sides

`Refer` of `stub.py` gives a client a remote proxy for each method attribute lookup finds
in a class; the exporter takes the methods from the dictionary of the class.

* `Refer.getattr`: `__getattr__`;
* `NamesAgree`: what a proxy asks for is found by the server, and a filtered method is
  reachable on neither side;
* `Served`: the methods for which it is so;
* `agree_iff_proper`: the names agree if and only if `provide` is not used on a method and
  every method a client gets a proxy for is served.
-/

namespace SummerRpc

/-- What a client gets for an attribute. -/
inductive Referred where
  | own
  | object (a : Attr)
  | proxy (className : List UInt8) (methodName : ProvidedName)
deriving DecidableEq, Repr

namespace Refer

/-- The attributes of `Refer`, of its instances and of `object`. -/
def ownAttributes : List (List UInt8) :=
  [bytes "_class_object", bytes "_transport", bytes "_serializer", bytes "_cluster",
    bytes "_heartbeat_func", bytes "_protocol", bytes "_refer_argument", bytes "_connection_pool",
    bytes "_class_name", bytes "_connection_factory", bytes "_get_connnection_context",
    bytes "_dynamic_proxy", bytes "refer_close", bytes "__getattr__", bytes "__init__",
    bytes "__module__", bytes "__dict__", bytes "__weakref__", bytes "__doc__",
    bytes "__class__", bytes "__delattr__", bytes "__format__", bytes "__getattribute__",
    bytes "__hash__", bytes "__new__", bytes "__reduce__", bytes "__reduce_ex__", bytes "__repr__",
    bytes "__setattr__", bytes "__sizeof__", bytes "__str__", bytes "__subclasshook__"]

/-- `__getattr__` -/
def getattr (cls : PyClass) (attrName : List UInt8) : Except Exc Referred :=
  match (cls.getattr attrName).map Attr.viaClass with
  | none | some (.object .none) => .error { cls := .attributeError }
  | some (.object a) => .ok (.object a)
  | some (.method f) =>
    match getProvide f with
    | some info => do
      if ← info.isFiltered then .error { cls := .runtimeError }
      let methodName ← info.getName
      return .proxy cls.className methodName
    | none => .ok (.proxy cls.className (.key attrName))

/-- An attribute of the client's object: `__getattr__` is asked for those it does not have
itself. -/
def lookup (cls : PyClass) (attrName : List UInt8) : Except Exc Referred :=
  if ownAttributes.contains attrName then .ok .own else getattr cls attrName

end Refer

/-- What the server finds is the implementation of the attribute. -/
def PyClass.Denotes (cls : PyClass) (attrName : List UInt8) (v : Exported) : Prop :=
  ∃ r, cls.getattr attrName = some (.routine r) ∧ v = .bound r

/-- A client and a server that has the class agree on names. -/
structure NamesAgree (cls : PyClass) (filtered : List UInt8 → Prop) (exporter : ExporterState) :
    Prop where
  found : ∀ attrName className methodName,
    Refer.lookup cls attrName = .ok (.proxy className methodName) →
      ∃ name v, methodName = .key name ∧ exporter.getMethod className name = some v ∧
        cls.Denotes attrName v
  hidden : ∀ attrName, filtered attrName →
    (∀ className methodName, Refer.lookup cls attrName ≠ .ok (.proxy className methodName)) ∧
      ∀ methodName v, exporter.getMethod cls.className methodName = some v →
        ¬ cls.Denotes attrName v

namespace ClassSource

/-- The attribute is decorated with `provide(filtered=True)`. -/
def Filtered (source : ClassSource) (attrName : List UInt8) : Prop :=
  ∃ binding, source.binding attrName = some binding ∧ binding.Filtered

/-- Decorating the class raises nothing, and the names agree once it has been exported. -/
def Agree (source : ClassSource) (exporter : ExporterState) (cover : Bool) : Prop :=
  ∃ cls, source.eval = .ok cls ∧
    NamesAgree cls source.Filtered (exporter.exportClass cls cover).2

end ClassSource

/-- The method is one the exporter has: one of the class's own, under a name that does not
start with `'_'` and that the constructor leaves alone; or, where the class is passed over,
the one that has been exported before. -/
def Served (cls : PyClass) (exporter : ExporterState) (cover : Bool) (attrName : List UInt8) :
    Prop :=
  ∃ r, cls.getattr attrName = some (.routine r) ∧
    ((exporter.Taken cls cover ∧ exporter.getMethod cls.className attrName = some (.bound r)) ∨
      (¬ exporter.Taken cls cover ∧ cls.own.vars.lookup attrName = some (.routine r) ∧
        attrName.head? ≠ some 95 ∧ ∃ attrs, cls.construct = .ok attrs ∧ attrName ∉ attrs))

/-- `provide` is given no method, and every method a client gets a proxy for is served. -/
structure ClassSource.Proper (source : ClassSource) (exporter : ExporterState) (cover : Bool) :
    Prop where
  providesNothing : source.ProvidesNothing
  methods : ∀ cls, source.eval = .ok cls → ∀ attrName f, attrName ∉ Refer.ownAttributes →
    (cls.getattr attrName).map Attr.viaClass = some (.method f) →
    Served cls exporter cover attrName

/-! ## Both sides -/

theorem viaClass_method {a f : Attr} (h : a.viaClass = .method f) (hbare : a.Bare) :
    getProvide f = none := by
  have hprovide : ∀ b : Attr, b.Bare → getProvide b = none := by
    intro b hb
    cases b with
    | routine r => exact hb
    | _ => rfl
  cases a with
  | routine r =>
      cases h
      exact hbare
  | classmethod g =>
      cases h
      exact hprovide _ hbare
  | staticmethod g =>
      cases g with
      | routine r =>
          have hmethod : (if r.isMethod then ClassAttr.method (.routine r)
            else .object (.routine r)) = .method f := h
          split at hmethod
          · cases hmethod
            exact hbare
          · cases hmethod
      | _ => cases h
  | none => cases h
  | data id => cases h

variable {source : ClassSource} {cls : PyClass} {exporter : ExporterState} {cover : Bool}

/-- The client gets a proxy for the methods of the class, under their own names. -/
theorem proxy_iff (h : source.Makes cls) (attrName className : List UInt8)
    (methodName : ProvidedName) :
    Refer.lookup cls attrName = .ok (.proxy className methodName) ↔
      attrName ∉ Refer.ownAttributes ∧
        (∃ f, (cls.getattr attrName).map Attr.viaClass = some (.method f)) ∧
        className = cls.className ∧ methodName = .key attrName := by
  unfold Refer.lookup
  by_cases hown : attrName ∈ Refer.ownAttributes
  · rw [if_pos (List.contains_iff_mem.mpr hown)]
    constructor
    · intro hproxy
      cases hproxy
    · exact fun hnot => absurd hown hnot.1
  · rw [if_neg fun h => hown (List.contains_iff_mem.mp h)]
    unfold Refer.getattr
    cases hattr : cls.getattr attrName with
    | none => simp
    | some a =>
        cases hvia : a.viaClass with
        | object b =>
            cases b <;> simp [hvia]
        | method f =>
            have hnone := viaClass_method hvia ((h.getattr attrName).bare hattr)
            simp only [Option.map_some, hvia, hnone, Except.ok.injEq, Referred.proxy.injEq]
            constructor
            · rintro ⟨rfl, rfl⟩
              exact ⟨hown, ⟨f, rfl⟩, rfl, rfl⟩
            · rintro ⟨_, _, rfl, rfl⟩
              exact ⟨rfl, rfl⟩

theorem getattrInstance_eq_bound {attrs : PyDict PyObject} {name : List UInt8} {r r' : Routine} :
    ExporterState.getattrInstance attrs name r = .bound r' ↔ name ∉ attrs ∧ r = r' := by
  unfold ExporterState.getattrInstance
  rw [← AList.lookup_eq_none]
  cases attrs.lookup name with
  | none => simp
  | some object => simp

/-- The server finds the implementation of an attribute just when it is served. -/
theorem found_iff (h : source.Makes cls) (attrName : List UInt8) :
    (∃ v, (exporter.exportClass cls cover).2.getMethod cls.className attrName = some v ∧
      cls.Denotes attrName v) ↔ Served cls exporter cover attrName := by
  have hplain : ExporterState.Plain cls := ⟨fun name a ha => (h.own name).bare ha, h.getattrRaises⟩
  by_cases htaken : exporter.Taken cls cover
  · rw [ExporterState.exportClass_of_taken htaken]
    constructor
    · rintro ⟨v, hv, r, hr, rfl⟩
      exact ⟨r, hr, Or.inl ⟨htaken, hv⟩⟩
    · rintro ⟨r, hr, ⟨_, hv⟩ | ⟨hnot, _⟩⟩
      · exact ⟨_, hv, r, hr, rfl⟩
      · exact absurd htaken hnot
  · constructor
    · rintro ⟨v, hv, r, hr, rfl⟩
      obtain ⟨attrs, r', hconstruct, hlookup, hname, hbound⟩ :=
        (ExporterState.getMethod_exportClass hplain htaken _ _).mp hv
      obtain ⟨hattrs, rfl⟩ := getattrInstance_eq_bound.mp hbound
      exact ⟨r', hr, Or.inr ⟨htaken, hlookup, hname, attrs, hconstruct, hattrs⟩⟩
    · rintro ⟨r, hr, ⟨hyes, _⟩ | ⟨_, hlookup, hname, attrs, hconstruct, hattrs⟩⟩
      · exact absurd hyes htaken
      · refine ⟨.bound r, ?_, r, hr, rfl⟩
        exact (ExporterState.getMethod_exportClass hplain htaken _ _).mpr
          ⟨attrs, r, hconstruct, hlookup, hname, getattrInstance_eq_bound.mpr ⟨hattrs, rfl⟩⟩

/-- An attribute that is decorated with `provide(filtered=True)` is not a routine. -/
theorem not_isRoutine_of_filtered (h : source.Makes cls) {attrName : List UInt8}
    (hfiltered : source.Filtered attrName) {r : Routine} :
    cls.getattr attrName ≠ some (.routine r) := by
  intro hr
  obtain ⟨binding, hbinding, name, hmem⟩ := hfiltered
  rcases h.getattr attrName with ⟨other, a, hother, ha, hfound⟩ | ⟨hnone, _⟩
  · rw [hbinding] at hother
    cases hother
    rw [hr] at hfound
    rcases binding.eval_cases with ⟨_, ex, hex⟩ | ⟨_, b, hb, hroutine⟩
    · rw [ha] at hex
      cases hex
    · rw [ha] at hb
      have hnil := hroutine ⟨r, (Except.ok.inj hb).symm.trans (Option.some.inj hfound).symm⟩
      rw [hnil] at hmem
      cases hmem
  · rw [hbinding] at hnone
    cases hnone

namespace ClassSource

theorem proper_of_agree (h : source.Agree exporter cover) : source.Proper exporter cover := by
  obtain ⟨cls, heval, hagree⟩ := h
  rcases source.eval_cases with ⟨_, ex, hex⟩ | ⟨hnothing, cls', heval', hmakes⟩
  · rw [heval] at hex
    cases hex
  · rw [heval] at heval'
    cases heval'
    refine ⟨hnothing, ?_⟩
    intro other hother attrName f hown hmethod
    rw [heval] at hother
    cases hother
    apply (found_iff hmakes attrName).mp
    obtain ⟨name, v, ⟨⟩, hv⟩ := hagree.found attrName cls.className (.key attrName)
      ((proxy_iff hmakes _ _ _).mpr ⟨hown, ⟨f, hmethod⟩, rfl, rfl⟩)
    exact ⟨v, hv⟩

theorem agree_of_proper (h : source.Proper exporter cover) : source.Agree exporter cover := by
  rcases source.eval_cases with ⟨hnot, _⟩ | ⟨_, cls, heval, hmakes⟩
  · exact absurd h.providesNothing hnot
  · refine ⟨cls, heval, ?_, ?_⟩
    · intro attrName className methodName hproxy
      obtain ⟨hown, ⟨f, hmethod⟩, rfl, rfl⟩ := (proxy_iff hmakes _ _ _).mp hproxy
      obtain ⟨v, hv⟩ := (found_iff hmakes _).mpr (h.methods cls heval _ f hown hmethod)
      exact ⟨attrName, v, rfl, hv⟩
    · intro attrName hfiltered
      constructor
      · intro className methodName hproxy
        obtain ⟨hown, ⟨f, hmethod⟩, _⟩ := (proxy_iff hmakes _ _ _).mp hproxy
        obtain ⟨r, hr, _⟩ := h.methods cls heval _ f hown hmethod
        exact not_isRoutine_of_filtered hmakes hfiltered hr
      · rintro methodName v _ ⟨r, hr, _⟩
        exact not_isRoutine_of_filtered hmakes hfiltered hr

/-- A client and a server agree on the names of a class if and only if `provide` is given no
method, and every method a client gets a proxy for is served. -/
theorem agree_iff_proper (source : ClassSource) (exporter : ExporterState) (cover : Bool) :
    source.Agree exporter cover ↔ source.Proper exporter cover :=
  ⟨proper_of_agree, agree_of_proper⟩

/-- The class at the head of `decorator.py`. -/
def service : ClassSource where
  name := bytes "Service"
  own := {
    bindings := [
      { name := bytes "filtered_method", value := .function 1, decorators := [.provide none true] },
      { name := bytes "exported_method", value := .function 2 }]
    exports := [bytes "service"] }

/-- Decorating it raises an exception. -/
theorem service_raises :
    ¬ ∀ (source : ClassSource) (exporter : ExporterState) (cover : Bool),
      source.Agree exporter cover := by
  intro h
  have hnothing := (proper_of_agree (h service (.new true) false)).providesNothing
  exact hnothing service.own List.mem_cons_self _ List.mem_cons_self
    ⟨⟨_, rfl⟩, none, true, rfl⟩

end ClassSource

end SummerRpc
