import SummerRpc.Message.RoundTrip

/-! # Exceptions through `pickle`

What `pickle` makes of the values of a result when it dumps and loads them, and of the
exceptions of `exception.py` among them.

`Exception.__reduce__` gives `pickle` the class, the arguments `Exception.__init__` was
called with and the instance dictionary, so `BaseError.__getstate__` is never asked;
`BaseError.__setstate__` is given the dictionary, and takes it for the message.

* `reduce`, `rebuild`: an exception, taken apart and put together;
* `reload`: a value, dumped and loaded;
* `not_same_wrapped`: no message is the dictionary that holds it;
* `msg_never_survives`: so no exception comes back with its message.
-/

namespace SummerRpc

open PyVal

namespace BaseError

/-- `__init__`. No argument is passed on to `Exception.__init__`. -/
def init (cls : ExcClass) (msg : PyVal := .none) : PyVal := .baseError cls msg

/-- `__setstate__` -/
def setstate (state : PyVal) : PyVal → PyVal
  | .baseError cls _ => .baseError cls state
  | value => value

/-- The instance dictionary. -/
def dict (msg : PyVal) : PyVal := .dict [(.str (bytes "_msg"), msg)]

/-- What `Exception.__reduce__` gives: the class, no arguments, and the instance
dictionary. -/
def reduce (cls : ExcClass) (msg : PyVal) : ExcClass × List PyVal × PyVal := (cls, [], dict msg)

/-- What `pickle` makes of that: the class called with the arguments, and the state handed
to `__setstate__`. -/
def rebuild (cls : ExcClass) (args : List PyVal) (state : PyVal) : PyVal :=
  setstate state (init cls (args.headD .none))

end BaseError

namespace Pickle

mutual

/-- `pickle.loads(pickle.dumps(value))` -/
def reload : PyVal → PyVal
  | .tuple items => .tuple (reloadAll items)
  | .list items => .list (reloadAll items)
  | .dict items => .dict (reloadItems items)
  | .baseError cls msg =>
    let (cls, args, state) := BaseError.reduce cls (reload msg)
    BaseError.rebuild cls args state
  | .instance cls attrs => .instance cls (reloadAttrs attrs)
  | value => value

/-- Each of some values. -/
def reloadAll : List PyVal → List PyVal
  | [] => []
  | item :: items => reload item :: reloadAll items

/-- The items of a dictionary. -/
def reloadItems : List (PyVal × PyVal) → List (PyVal × PyVal)
  | [] => []
  | (key, value) :: items => (reload key, reload value) :: reloadItems items

/-- The attributes of an instance. -/
def reloadAttrs : List (String × PyVal) → List (String × PyVal)
  | [] => []
  | (name, value) :: attrs => (name, reload value) :: reloadAttrs attrs

end

/-- The result that is loaded, attribute by attribute. -/
def reloadResult (result : Result) : Result where
  result := result.result.map reload
  exc := result.exc.map reload
  «meta» := result.meta.map reload

/-- `pickle` dumps the result, and loads it from what it has dumped. -/
def Reloads (pickle : Pickle) (result : Result) : Prop :=
  ∃ buff, pickle.dumps (.result result) = .ok buff ∧
    pickle.loads (some buff) = .ok (.result (reloadResult result))

/-- The exceptions are of one class, and their messages equal at every level. -/
inductive SameError : PyVal → PyVal → Prop where
  | msg {cls : ExcClass} {a b : PyVal} :
      Same a b → SameError (.baseError cls a) (.baseError cls b)
  | wrapped {cls : ExcClass} {a b : PyVal} :
      SameError a b → SameError (.baseError cls a) (.baseError cls b)

/-- The result comes back with its exception. -/
def Survives (serializer : Serializer) (result : Result) : Prop :=
  ∃ buff loaded a b, serializer.dumps (.result result) = .ok buff ∧
    serializer.loads (some buff) = .ok (.result loaded) ∧
    loaded.exc = some a ∧ result.exc = some b ∧ SameError a b

/-! ## Messages and dictionaries -/

/-- An exception comes back as one of its class whose message is the dictionary. -/
theorem reload_baseError (cls : ExcClass) (msg : PyVal) :
    reload (.baseError cls msg) = .baseError cls (BaseError.dict (reload msg)) := by
  rw [reload]
  rfl

/-- A string comes back as it is. -/
theorem reload_eqStr {v : PyVal} {s : List UInt8} (h : v.eqStr s = true) : reload v = v := by
  cases v with
  | str s => rw [reload] <;> intros <;> contradiction
  | unicode s => rw [reload] <;> intros <;> contradiction
  | _ => cases h

/-- What is the same as a string equal to `s` is equal to `s`. -/
theorem eqStr_of_same {v w : PyVal} {s : List UInt8} (h : Same v w) (hv : v.eqStr s = true) :
    w.eqStr s = true := by
  cases h with
  | refl => exact hv
  | unicodeStr heq =>
      simp only [eqStr, decide_eq_true_eq] at heq hv ⊢
      exact Same.map_toNat_injective (heq.1.symm.trans hv.1)
  | strUnicode heq =>
      simp only [eqStr, decide_eq_true_eq] at hv
      rw [← hv]
      exact heq
  | sequence hitems _ _ => cases v <;> cases hitems <;> cases hv
  | boolInt b => cases hv
  | intBool b => cases hv
  | dict _ _ _ => cases hv

/-- What is the same as a dictionary of one item is one. -/
theorem same_singleton {key value v : PyVal} (h : Same (.dict [(key, value)]) v) :
    ∃ key' value', v = .dict [(key', value')] ∧ Same key key' ∧ Same value value' := by
  cases h with
  | refl => exact ⟨key, value, rfl, Same.refl _, Same.refl _⟩
  | sequence hitems _ _ => cases hitems
  | dict hperm hkeys hvalues =>
      rename_i ys zs
      cases zs with
      | nil => cases hkeys
      | cons z zs =>
          rw [List.map_cons, List.map_cons, List.forall₂_cons] at hkeys hvalues
          cases zs with
          | nil =>
              rw [List.perm_singleton.mp hperm.symm]
              exact ⟨z.1, z.2, rfl, hkeys.1, hvalues.1⟩
          | cons z' zs => cases hkeys.2

/-- No value is a dictionary that holds it under the name of the attribute. -/
theorem not_same_wrapped {s : List UInt8} (key msg : PyVal) (hkey : key.eqStr s = true) :
    ¬ Same (.dict [(key, reload msg)]) msg := by
  intro h
  obtain ⟨key', inner, rfl, hsame, hinner⟩ := same_singleton h
  have hkey' : key'.eqStr s = true := eqStr_of_same hsame hkey
  -- so the value inside is one as well
  have hreload : reload (.dict [(key', inner)]) = .dict [(key', reload inner)] := by
    rw [reload, reloadItems, reloadItems, reload_eqStr hkey']
  rw [hreload] at hinner
  exact not_same_wrapped key' inner hkey' hinner
termination_by sizeOf msg
decreasing_by
  subst_vars
  simp only [PyVal.dict.sizeOf_spec, List.cons.sizeOf_spec, Prod.mk.sizeOf_spec]
  omega

theorem not_sameError (cls : ExcClass) (msg : PyVal) :
    ¬ SameError (reload (.baseError cls msg)) (.baseError cls msg) := by
  rw [reload_baseError]
  intro h
  cases h with
  | msg hsame =>
      have hkey : (PyVal.str (bytes "_msg")).eqStr (bytes "_msg") = true := by simp [eqStr]
      exact not_same_wrapped _ msg hkey hsame
  | wrapped hwrapped => cases hwrapped

/-! ## The result -/

theorem not_survives {pickle : Pickle} {result : Result} {cls : ExcClass} {msg : PyVal}
    (hexc : result.exc = some (.baseError cls msg)) (hpickle : Reloads pickle result) :
    ¬ Survives (PickleSerializer pickle) result := by
  obtain ⟨buff, hdumps, hloads⟩ := hpickle
  rintro ⟨buff', loaded, a, b, hdumped, hloaded, ha, hb, hsame⟩
  have hserialized : (PickleSerializer pickle).dumps (.result result) = .ok buff := by
    simp only [PickleSerializer, hdumps]
  rw [hserialized] at hdumped
  have hdeserialized : (PickleSerializer pickle).loads (some buff) =
      .ok (.result (reloadResult result)) := by
    simp only [PickleSerializer, hloads]
  rw [← Except.ok.inj hdumped, hdeserialized] at hloaded
  rw [← Message.result.inj (Except.ok.inj hloaded)] at ha
  have hreload : (reloadResult result).exc = some (reload (.baseError cls msg)) := by
    rw [reloadResult, hexc]
    rfl
  rw [hreload] at ha
  rw [hexc] at hb
  rw [← Option.some.inj ha, ← Option.some.inj hb] at hsame
  exact not_sameError cls msg hsame

/-- Whatever exception of `exception.py` a result carries, it does not come back with its
message. -/
theorem msg_never_survives (pickle : Pickle) (result : Result) (cls : ExcClass) (msg : PyVal)
    (hexc : result.exc = some (.baseError cls msg)) (hpickle : Reloads pickle result) :
    ¬ Survives (PickleSerializer pickle) result := not_survives hexc hpickle

/-- What the server answers when a method is not exported. -/
def lookupFailed : Result :=
  { Result.new with
    exc := some (BaseError.init .methodExecutionError
      (BaseError.init .lookupMethodError (.str (bytes "not exported")))) }

/-- `pickle`, as far as it is needed here. -/
def lookupPickle : Pickle where
  loads := fun _ => .ok (.result (reloadResult lookupFailed))
  dumps := fun _ => .ok (bytes "pickled")

theorem reloads_lookupFailed : Reloads lookupPickle lookupFailed := ⟨bytes "pickled", rfl, rfl⟩

theorem msg_never_survives_lookup : ¬ Survives (PickleSerializer lookupPickle) lookupFailed :=
  msg_never_survives lookupPickle lookupFailed .methodExecutionError
    (BaseError.init .lookupMethodError (.str (bytes "not exported"))) rfl reloads_lookupFailed

/-- The client reads `{"_msg": …}` where the server has put a message. -/
theorem msg_lost :
    ¬ ∀ pickle result cls msg, result.exc = some (.baseError cls msg) → Reloads pickle result →
      Survives (PickleSerializer pickle) result := by
  intro h
  exact not_survives rfl reloads_lookupFailed (h _ _ _ _ rfl reloads_lookupFailed)

end Pickle

end SummerRpc
