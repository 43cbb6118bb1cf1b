import SummerRpc.Server.Exporter
import Mathlib.Data.List.AList

/-! # Classes and decorators

Python classes, as far as the exporter and the client look at them, and `decorator.py`. A
class is a list of dictionaries, its own and those it inherits from; the body of a class is
run with the decorators in it before there is a class.

* `provide`, `getProvide`, `getExport`: the decorators, and what they leave behind;
* `ClassSource.eval`: the class a definition makes, or what is raised;
* `PyClass.getattr`: attribute lookup;
* `eval_isOk_iff`: the decorators raise nothing if and only if `provide` is given no
  function and no method.
-/

namespace SummerRpc

/-- A Python dictionary whose keys are strings. -/
abbrev PyDict (α : Type) := AList fun _ : List UInt8 => α

/-- What `__rpc_provide__` has for a name: a key of a dictionary, or an object that can be
none. -/
inductive ProvidedName where
  | key (name : List UInt8)
  | unhashable
deriving DecidableEq, Repr

/-- `__rpc_provide__`: a dictionary, in which a name or `filtered` may be missing. -/
structure ProvideInfo where
  name : Option ProvidedName
  filtered : Option Bool
deriving DecidableEq, Repr

namespace ProvideInfo

/-- `provide_info["filtered"]` -/
def isFiltered (info : ProvideInfo) : Except Exc Bool :=
  match info.filtered with
  | some filtered => .ok filtered
  | none => .error { cls := .keyError, msg := "'filtered'" }

/-- `provide_info["name"]` -/
def getName (info : ProvideInfo) : Except Exc ProvidedName :=
  match info.name with
  | some name => .ok name
  | none => .error { cls := .keyError, msg := "'name'" }

/-- The name as a key, in `d[provide_info["name"]]`. -/
def getKey (info : ProvideInfo) : Except Exc (List UInt8) := do
  match ← info.getName with
  | .key name => return name
  | .unhashable => .error { cls := .typeError, msg := "unhashable type" }

end ProvideInfo

/-- A function: which one it is, what the server asks of it, and `__rpc_provide__`. -/
structure PyFunction where
  id : ℕ
  method : Method := {}
  rpcProvide : Option ProvideInfo := none
deriving DecidableEq, Repr

/-- A function, or a method object with that function. -/
structure Routine where
  isMethod : Bool := false
  function : PyFunction
deriving DecidableEq, Repr

/-- An object in the dictionary of a class. -/
inductive Attr where
  | routine (r : Routine)
  | staticmethod (f : Attr)
  | classmethod (f : Attr)
  | none
  | data (id : ℕ)
deriving DecidableEq, Repr

/-- What `getattr(cls, name)` makes of such an object: a method of it, or an object. -/
inductive ClassAttr where
  | method (f : Attr)
  | object (a : Attr)
deriving DecidableEq, Repr

def Attr.IsRoutine (a : Attr) : Prop := ∃ r, a = .routine r

/-- The object is asked for through the class. -/
def Attr.viaClass : Attr → ClassAttr
  | .routine r => .method (.routine r)
  | .classmethod f => .method f
  | .staticmethod (.routine r) =>
    if r.isMethod then .method (.routine r) else .object (.routine r)
  | .staticmethod f => .object f
  | a => .object a

/-! ## `decorator.py` -/

/-- `provide(name, filtered)(f)`. The assignment to `name` in `_inner` makes it a local
variable of `_inner`, which is read before it is assigned. -/
def provide (_name : Option (List UInt8)) (_filtered : Bool) : Attr → Except Exc Attr
  | .routine _ =>
    .error { cls := .exception, msg := "local variable 'name' referenced before assignment" }
  | f => .ok f

/-- `get_provide` of an object, or of the method of it. -/
def getProvide : Attr → Option ProvideInfo
  | .routine r => r.function.rpcProvide
  | _ => none

/-- The dictionary of a class, and `__rpc_export__` in it. -/
structure ClassDict where
  vars : PyDict Attr
  rpcExport : Option (List UInt8) := none

/-- `export(name)(cls)` -/
def ClassDict.exportAs (name : List UInt8) (cls : ClassDict) : ClassDict :=
  { cls with rpcExport := some name }

/-- An object in the dictionary of an instance: which one, and what the server asks of it
when it is called as a method. -/
structure PyObject where
  id : ℕ
  method : Method := {}
deriving DecidableEq, Repr

/-- A class: its own dictionary, those of the other classes of its `mro()` and of that of
its metaclass, what its constructor puts into an instance, and what its `__getattribute__`
raises for a name. -/
structure PyClass where
  name : List UInt8
  own : ClassDict
  bases : List ClassDict
  metaclass : List ClassDict
  construct : Except Exc (PyDict PyObject)
  getattrRaises : List UInt8 → Option Exc := fun _ => none

namespace PyClass

/-- The dictionaries in which an attribute of the class is looked up. -/
def dicts (cls : PyClass) : List ClassDict := cls.own :: (cls.bases ++ cls.metaclass)

/-- The object `getattr(cls, name)` finds. -/
def getattr (cls : PyClass) (name : List UInt8) : Option Attr :=
  cls.dicts.findSome? fun dict => dict.vars.lookup name

/-- `get_export` -/
def getExport (cls : PyClass) : Option (List UInt8) := cls.dicts.findSome? ClassDict.rpcExport

/-- The name under which the class is exported, and under which the client calls it. -/
def className (cls : PyClass) : List UInt8 := cls.getExport.getD cls.name

end PyClass

/-! ## Definitions -/

/-- What is decorated: a new function, a method object, or another object. -/
inductive Value where
  | function (id : ℕ) (flags : Method := {})
  | method (id : ℕ) (flags : Method := {})
  | none
  | data (id : ℕ)
deriving DecidableEq, Repr

def Value.toAttr : Value → Attr
  | .function id flags => .routine { function := { id, method := flags } }
  | .method id flags => .routine { isMethod := true, function := { id, method := flags } }
  | .none => .none
  | .data id => .data id

inductive Decorator where
  | provide (name : Option (List UInt8)) (filtered : Bool)
  | staticmethod
  | classmethod
deriving DecidableEq, Repr

def Decorator.apply (f : Attr) : Decorator → Except Exc Attr
  | .provide name filtered => SummerRpc.provide name filtered f
  | .staticmethod => .ok (.staticmethod f)
  | .classmethod => .ok (.classmethod f)

/-- A name that is bound in the body of a class, with the innermost decorator first. -/
structure Binding where
  name : List UInt8
  value : Value
  decorators : List Decorator := []
deriving DecidableEq, Repr

def Binding.eval (binding : Binding) : Except Exc Attr :=
  binding.decorators.foldlM Decorator.apply binding.value.toAttr

/-- The body of a class, and the names `export` is given. -/
structure ClassBody where
  bindings : List Binding
  exports : List (List UInt8) := []

/-- The body is run from the top. -/
def ClassBody.run (vars : PyDict Attr) : List Binding → Except Exc (PyDict Attr)
  | [] => .ok vars
  | binding :: bindings => do
    let value ← binding.eval
    run (vars.insert binding.name value) bindings

/-- The last of some bindings that binds a name. -/
def Binding.lastOf (name : List UInt8) : List Binding → Option Binding
  | [] => none
  | binding :: bindings =>
    (lastOf name bindings).or (if binding.name = name then some binding else none)

/-- What the body leaves bound to a name. -/
def ClassBody.binding (body : ClassBody) (name : List UInt8) : Option Binding :=
  Binding.lastOf name body.bindings

/-- The class is made of the body, and then decorated. -/
def ClassBody.eval (body : ClassBody) : Except Exc ClassDict := do
  let vars ← ClassBody.run ∅ body.bindings
  return body.exports.foldl (fun dict name => dict.exportAs name) { vars }

def ClassBody.evalAll : List ClassBody → Except Exc (List ClassDict)
  | [] => .ok []
  | body :: bodies => do
    let dict ← body.eval
    let dicts ← evalAll bodies
    return dict :: dicts

/-- The definition of a class, with those of the classes it inherits from. -/
structure ClassSource where
  name : List UInt8
  own : ClassBody
  bases : List ClassBody := []
  metaclass : List ClassBody := []
  construct : Except Exc (PyDict PyObject) := .ok ∅

def ClassSource.eval (source : ClassSource) : Except Exc PyClass := do
  let bases ← ClassBody.evalAll source.bases
  let metaclass ← ClassBody.evalAll source.metaclass
  let own ← source.own.eval
  return { name := source.name, own, bases, metaclass, construct := source.construct }

namespace ClassSource

/-- The body of the class and those it inherits. -/
def bodies (source : ClassSource) : List ClassBody :=
  source.own :: (source.bases ++ source.metaclass)

/-- The binding attribute lookup finds. -/
def binding (source : ClassSource) (name : List UInt8) : Option Binding :=
  source.bodies.findSome? fun body => body.binding name

end ClassSource

/-! ## What the decorators do -/

/-- `provide` is given a function or a method. -/
def Binding.ProvidesRoutine (binding : Binding) : Prop :=
  binding.value.toAttr.IsRoutine ∧
    ∃ name filtered, binding.decorators.head? = some (.provide name filtered)

/-- It is given none, neither in the class nor in those it inherits from. -/
def ClassSource.ProvidesNothing (source : ClassSource) : Prop :=
  ∀ body ∈ source.bodies, ∀ binding ∈ body.bindings, ¬ binding.ProvidesRoutine

/-- `provide(filtered=True)` is among the decorators. -/
def Binding.Filtered (binding : Binding) : Prop :=
  ∃ name, Decorator.provide name true ∈ binding.decorators

namespace Attr

/-- No function in the object has `__rpc_provide__`. -/
def Bare : Attr → Prop
  | .routine r => r.function.rpcProvide = Option.none
  | .staticmethod f => f.Bare
  | .classmethod f => f.Bare
  | _ => True

theorem not_isRoutine_staticmethod (f : Attr) : ¬ (Attr.staticmethod f).IsRoutine := by
  rintro ⟨r, hr⟩
  cases hr

theorem not_isRoutine_classmethod (f : Attr) : ¬ (Attr.classmethod f).IsRoutine := by
  rintro ⟨r, hr⟩
  cases hr

end Attr

namespace Decorator

/-- A decorator of something else than a routine raises nothing, and does not make it one. -/
theorem apply_of_not_isRoutine {a : Attr} (h : ¬ a.IsRoutine) (decorator : Decorator) :
    ∃ b, decorator.apply a = .ok b ∧ ¬ b.IsRoutine := by
  cases decorator with
  | provide name filtered =>
      cases a with
      | routine r => exact absurd ⟨r, rfl⟩ h
      | _ => exact ⟨_, rfl, h⟩
  | staticmethod => exact ⟨_, rfl, Attr.not_isRoutine_staticmethod a⟩
  | classmethod => exact ⟨_, rfl, Attr.not_isRoutine_classmethod a⟩

/-- What a decorator returns has no more of `__rpc_provide__` than what it is given. -/
theorem bare_apply {a b : Attr} {decorator : Decorator} (h : decorator.apply a = .ok b)
    (hbare : a.Bare) : b.Bare := by
  cases decorator with
  | provide name filtered =>
      cases a with
      | routine r => cases h
      | _ =>
          cases h
          exact hbare
  | staticmethod =>
      cases h
      exact hbare
  | classmethod =>
      cases h
      exact hbare

theorem foldlM_of_not_isRoutine {a : Attr} (h : ¬ a.IsRoutine) (decorators : List Decorator) :
    ∃ b, decorators.foldlM apply a = .ok b ∧ ¬ b.IsRoutine := by
  induction decorators generalizing a with
  | nil => exact ⟨a, rfl, h⟩
  | cons decorator decorators ih =>
      obtain ⟨b, hb, hnot⟩ := apply_of_not_isRoutine h decorator
      obtain ⟨c, hc, hnot'⟩ := ih hnot
      refine ⟨c, ?_, hnot'⟩
      rw [List.foldlM_cons, hb]
      exact hc

theorem bare_foldlM {a b : Attr} {decorators : List Decorator}
    (h : decorators.foldlM apply a = .ok b) (hbare : a.Bare) : b.Bare := by
  induction decorators generalizing a with
  | nil =>
      cases h
      exact hbare
  | cons decorator decorators ih =>
      rw [List.foldlM_cons] at h
      cases hfirst : decorator.apply a with
      | error ex =>
          rw [hfirst] at h
          cases h
      | ok c =>
          rw [hfirst] at h
          exact ih h (bare_apply hfirst hbare)

end Decorator

namespace Binding

variable {binding : Binding} {a : Attr}

theorem bare_eval (h : binding.eval = .ok a) : a.Bare := by
  apply Decorator.bare_foldlM h
  cases binding.value with
  | function => rfl
  | method => rfl
  | none => trivial
  | data => trivial

/-- A binding is evaluated unless it gives `provide` a routine, and it leaves a routine
behind only when it has no decorators. -/
theorem eval_cases (binding : Binding) :
    (binding.ProvidesRoutine ∧ ∃ ex, binding.eval = .error ex) ∨
      (¬ binding.ProvidesRoutine ∧
        ∃ a, binding.eval = .ok a ∧ (a.IsRoutine → binding.decorators = [])) := by
  obtain ⟨name, value, decorators⟩ := binding
  by_cases hroutine : value.toAttr.IsRoutine
  · cases decorators with
    | nil =>
        refine Or.inr ⟨?_, _, rfl, fun _ => rfl⟩
        rintro ⟨_, _, _, hhead⟩
        cases hhead
    | cons decorator decorators =>
        cases decorator with
        | provide given filtered =>
            obtain ⟨r, hr⟩ := hroutine
            have heval : Binding.eval ⟨name, value, .provide given filtered :: decorators⟩ =
                (Decorator.provide given filtered).apply value.toAttr >>= _ := rfl
            rw [hr] at heval
            exact Or.inl ⟨⟨⟨r, hr⟩, given, filtered, rfl⟩, _, heval⟩
        | staticmethod =>
            obtain ⟨b, hb, hnot⟩ := Decorator.foldlM_of_not_isRoutine
              (Attr.not_isRoutine_staticmethod value.toAttr) decorators
            refine Or.inr ⟨?_, b, hb, fun h => absurd h hnot⟩
            rintro ⟨_, _, _, hhead⟩
            cases hhead
        | classmethod =>
            obtain ⟨b, hb, hnot⟩ := Decorator.foldlM_of_not_isRoutine
              (Attr.not_isRoutine_classmethod value.toAttr) decorators
            refine Or.inr ⟨?_, b, hb, fun h => absurd h hnot⟩
            rintro ⟨_, _, _, hhead⟩
            cases hhead
  · obtain ⟨b, hb, hnot⟩ := Decorator.foldlM_of_not_isRoutine hroutine decorators
    exact Or.inr ⟨fun h => hroutine h.1, b, hb, fun h => absurd h hnot⟩

end Binding

/-- The binding leaves the object behind. -/
def Binding.Leaves (binding : Option Binding) (found : Option Attr) : Prop :=
  (∃ b a, binding = some b ∧ b.eval = .ok a ∧ found = some a) ∨ (binding = none ∧ found = none)

/-- What is left behind has no `__rpc_provide__`. -/
theorem Binding.Leaves.bare {binding : Option Binding} {found : Option Attr}
    (h : Binding.Leaves binding found) {a : Attr} (ha : found = some a) : a.Bare := by
  rcases h with ⟨b, c, _, hc, hfound⟩ | ⟨_, hnone⟩
  · rw [ha] at hfound
    rw [Option.some.inj hfound]
    exact Binding.bare_eval hc
  · rw [ha] at hnone
    cases hnone

namespace ClassBody

/-- The body is run unless it gives `provide` a routine; then every name is bound to what is
bound to it last. -/
theorem run_cases (bindings : List Binding) (vars : PyDict Attr) :
    ((¬ ∀ binding ∈ bindings, ¬ binding.ProvidesRoutine) ∧
        ∃ ex, run vars bindings = .error ex) ∨
      ((∀ binding ∈ bindings, ¬ binding.ProvidesRoutine) ∧
        ∃ after, run vars bindings = .ok after ∧ ∀ name,
          (∃ binding a, Binding.lastOf name bindings = some binding ∧ binding.eval = .ok a ∧
            after.lookup name = some a) ∨
          (Binding.lastOf name bindings = none ∧ after.lookup name = vars.lookup name)) := by
  induction bindings generalizing vars with
  | nil =>
      exact Or.inr ⟨fun _ h => absurd h List.not_mem_nil, vars, rfl, fun _ => Or.inr ⟨rfl, rfl⟩⟩
  | cons binding bindings ih =>
      rcases binding.eval_cases with ⟨hprovides, ex, hex⟩ | ⟨hnot, a, ha, _⟩
      · left
        refine ⟨fun hall => hall binding List.mem_cons_self hprovides, ex, ?_⟩
        rw [run, hex]
        rfl
      · have hrun : run vars (binding :: bindings) =
            run (vars.insert binding.name a) bindings := by
          rw [run, ha]
          rfl
        rw [hrun]
        rcases ih (vars.insert binding.name a) with ⟨hsome, hex⟩ | ⟨hall, after, hafter, hlookup⟩
        · exact Or.inl ⟨fun hall => hsome fun b hb => hall b (List.mem_cons_of_mem _ hb), hex⟩
        · refine Or.inr ⟨List.forall_mem_cons.mpr ⟨hnot, hall⟩, after, hafter, ?_⟩
          intro name
          rcases hlookup name with ⟨last, b, hlast, hb, hfound⟩ | ⟨hlast, hsame⟩
          · -- it is bound again
            exact Or.inl ⟨last, b, by rw [Binding.lastOf, hlast]; rfl, hb, hfound⟩
          · by_cases hname : binding.name = name
            · subst hname
              refine Or.inl ⟨binding, a, ?_, ha, by rw [hsame, AList.lookup_insert]⟩
              rw [Binding.lastOf, hlast, if_pos rfl]
              rfl
            · refine Or.inr ⟨?_, ?_⟩
              · rw [Binding.lastOf, hlast, if_neg hname]
                rfl
              · rw [hsame, AList.lookup_insert_ne (Ne.symm hname)]

/-- What the class has is what its body has bound. -/
def Made (body : ClassBody) (dict : ClassDict) : Prop :=
  ∀ name, Binding.Leaves (body.binding name) (dict.vars.lookup name)

theorem vars_foldl_exportAs (names : List (List UInt8)) (dict : ClassDict) :
    (names.foldl (fun dict name => dict.exportAs name) dict).vars = dict.vars := by
  induction names generalizing dict with
  | nil => rfl
  | cons name names ih => exact ih (dict.exportAs name)

theorem eval_cases (body : ClassBody) :
    ((¬ ∀ binding ∈ body.bindings, ¬ binding.ProvidesRoutine) ∧ ∃ ex, body.eval = .error ex) ∨
      ((∀ binding ∈ body.bindings, ¬ binding.ProvidesRoutine) ∧
        ∃ dict, body.eval = .ok dict ∧ body.Made dict) := by
  unfold eval
  rcases run_cases body.bindings ∅ with ⟨hsome, ex, hex⟩ | ⟨hall, after, hafter, hlookup⟩
  · refine Or.inl ⟨hsome, ex, ?_⟩
    rw [hex]
    rfl
  · rw [hafter]
    refine Or.inr ⟨hall, _, rfl, ?_⟩
    intro name
    rw [vars_foldl_exportAs]
    exact hlookup name

theorem evalAll_cases (bodies : List ClassBody) :
    ((¬ ∀ body ∈ bodies, ∀ binding ∈ body.bindings, ¬ binding.ProvidesRoutine) ∧
        ∃ ex, evalAll bodies = .error ex) ∨
      ((∀ body ∈ bodies, ∀ binding ∈ body.bindings, ¬ binding.ProvidesRoutine) ∧
        ∃ dicts, evalAll bodies = .ok dicts ∧ List.Forall₂ Made bodies dicts) := by
  induction bodies with
  | nil => exact Or.inr ⟨fun _ h => absurd h List.not_mem_nil, [], rfl, .nil⟩
  | cons body bodies ih =>
      rcases body.eval_cases with ⟨hsome, ex, hex⟩ | ⟨hbody, dict, hdict, hmade⟩
      · refine Or.inl ⟨fun hall => hsome (hall body List.mem_cons_self), ex, ?_⟩
        rw [evalAll, hex]
        rfl
      · rcases ih with ⟨hsome, ex, hex⟩ | ⟨hall, dicts, hdicts, hmades⟩
        · refine Or.inl ⟨fun hall => hsome fun b hb => hall b (List.mem_cons_of_mem _ hb), ex, ?_⟩
          rw [evalAll, hdict, hex]
          rfl
        · refine Or.inr ⟨List.forall_mem_cons.mpr ⟨hbody, hall⟩, dict :: dicts, ?_, ?_⟩
          · rw [evalAll, hdict, hdicts]
            rfl
          · exact .cons hmade hmades

end ClassBody

namespace ClassSource

/-- The class is as it has been defined. -/
structure Makes (source : ClassSource) (cls : PyClass) : Prop where
  dicts : List.Forall₂ ClassBody.Made source.bodies cls.dicts
  own : source.own.Made cls.own
  construct : cls.construct = source.construct
  getattrRaises : ∀ name, cls.getattrRaises name = none

/-- The decorators raise nothing if and only if `provide` is given no routine. -/
theorem eval_cases (source : ClassSource) :
    (¬ source.ProvidesNothing ∧ ∃ ex, source.eval = .error ex) ∨
      (source.ProvidesNothing ∧ ∃ cls, source.eval = .ok cls ∧ source.Makes cls) := by
  have hsplit : source.ProvidesNothing ↔
      (∀ binding ∈ source.own.bindings, ¬ binding.ProvidesRoutine) ∧
        (∀ body ∈ source.bases, ∀ binding ∈ body.bindings, ¬ binding.ProvidesRoutine) ∧
        ∀ body ∈ source.metaclass, ∀ binding ∈ body.bindings, ¬ binding.ProvidesRoutine := by
    simp only [ProvidesNothing, bodies, List.forall_mem_cons, List.forall_mem_append]
  rw [hsplit]
  unfold eval
  rcases ClassBody.evalAll_cases source.bases with ⟨hsome, ex, hex⟩ | ⟨hbases, bases, hok, hmade⟩
  · refine Or.inl ⟨fun h => hsome h.2.1, ex, ?_⟩
    rw [hex]
    rfl
  rcases ClassBody.evalAll_cases source.metaclass
    with ⟨hsome, ex, hex⟩ | ⟨hmetaclass, metaclass, hok', hmade'⟩
  · refine Or.inl ⟨fun h => hsome h.2.2, ex, ?_⟩
    rw [hok, hex]
    rfl
  rcases source.own.eval_cases with ⟨hsome, ex, hex⟩ | ⟨hown, own, hok'', hmade''⟩
  · refine Or.inl ⟨fun h => hsome h.1, ex, ?_⟩
    rw [hok, hok', hex]
    rfl
  · rw [hok, hok', hok'']
    refine Or.inr ⟨⟨hown, hbases, hmetaclass⟩, _, rfl, ?_, hmade'', rfl, fun _ => rfl⟩
    exact .cons hmade'' (List.rel_append hmade hmade')

/-- Attribute lookup finds what the binding that is found evaluates to. -/
theorem findSome_made {bodies : List ClassBody} {dicts : List ClassDict}
    (h : List.Forall₂ ClassBody.Made bodies dicts) (name : List UInt8) :
    Binding.Leaves (bodies.findSome? fun body => body.binding name)
      (dicts.findSome? fun dict => dict.vars.lookup name) := by
  induction h with
  | nil => exact Or.inr ⟨rfl, rfl⟩
  | cons hmade _ ih =>
      rcases hmade name with ⟨binding, a, hbinding, ha, hlookup⟩ | ⟨hbinding, hlookup⟩
      · refine Or.inl ⟨binding, a, ?_, ha, ?_⟩
        · rw [List.findSome?_cons, hbinding]
        · rw [List.findSome?_cons, hlookup]
      · rw [List.findSome?_cons, hbinding, List.findSome?_cons, hlookup]
        exact ih

theorem Makes.getattr {source : ClassSource} {cls : PyClass} (h : source.Makes cls)
    (name : List UInt8) : Binding.Leaves (source.binding name) (cls.getattr name) :=
  findSome_made h.dicts name

end ClassSource

end SummerRpc
