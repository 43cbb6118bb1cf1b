import Mathlib.Data.List.Forall2
import Mathlib.Data.List.Nodup
import SummerRpc.Message.Serializer

/-! # `BaseSerializer` there and back

What `loads` makes of what `dumps` has written, over a module that is faithful on the
dictionary in between.

* `Same`: `==`, where a tuple may have become a list;
* `Same.field`: a field of a dictionary is found in one that is the same;
* `RoundTrips`: the object loaded has the fields of the object dumped;
* `round_trip_iff`: it has, unless the object is a request with a meta. `loads` reads
  `"meta"` for a result only.
-/

namespace SummerRpc

namespace PyVal

/-- The items of a tuple or a list. -/
def items? : PyVal → Option (List PyVal)
  | tuple items | list items => some items
  | _ => Option.none

/-- The values are equal in Python, up to turning tuples into lists. -/
inductive Same : PyVal → PyVal → Prop where
  | refl (v : PyVal) : Same v v
  | boolInt (b : Bool) : Same (bool b) (int (if b then 1 else 0))
  | intBool (b : Bool) : Same (int (if b then 1 else 0)) (bool b)
  | unicodeStr {s : List Char} {t : List UInt8} :
      (unicode s).eqStr t = true → Same (unicode s) (str t)
  | strUnicode {s : List Char} {t : List UInt8} :
      (unicode s).eqStr t = true → Same (str t) (unicode s)
  | sequence {v w : PyVal} {xs ys : List PyVal} : v.items? = some xs → w.items? = some ys →
      List.Forall₂ Same xs ys → Same v w
  /-- the order of the items does not matter -/
  | dict {xs ys zs : List (PyVal × PyVal)} : zs.Perm ys →
      List.Forall₂ Same (xs.map Prod.fst) (zs.map Prod.fst) →
      List.Forall₂ Same (xs.map Prod.snd) (zs.map Prod.snd) → Same (dict xs) (dict ys)

namespace Same

theorem none_left {v : PyVal} (h : Same none v) : v = none := by
  cases h with
  | refl => rfl
  | sequence hv _ _ => cases hv

/-- The values are of one kind, as far as a test tells kinds apart that are never equal. -/
theorem congr {f : PyVal → Bool} (hnumber : ∀ b n, f (bool b) = f (int n))
    (hstring : ∀ s t, f (unicode s) = f (str t)) (hsequence : ∀ xs ys, f (tuple xs) = f (list ys))
    (hdict : ∀ xs ys, f (PyVal.dict xs) = f (PyVal.dict ys)) {v w : PyVal} (h : Same v w) :
    f v = f w := by
  cases h with
  | refl => rfl
  | boolInt b => exact hnumber b _
  | intBool b => exact (hnumber b _).symm
  | unicodeStr _ => exact hstring _ _
  | strUnicode _ => exact (hstring _ _).symm
  | @sequence _ _ xs ys hv hw _ =>
      have hlist : ∀ {v : PyVal} {xs : List PyVal}, v.items? = some xs → f v = f (list []) := by
        intro v xs hv
        cases v with
        | tuple items => exact hsequence items []
        | list items => exact (hsequence [] items).symm.trans (hsequence [] [])
        | _ => cases hv
      exact (hlist hv).trans (hlist hw).symm
  | dict _ _ _ => exact hdict _ _

theorem isBasestring {v w : PyVal} (h : Same v w) : v.isBasestring = w.isBasestring :=
  h.congr (fun _ _ => rfl) (fun _ _ => rfl) (fun _ _ => rfl) fun _ _ => rfl

theorem isSequence {v w : PyVal} (h : Same v w) : v.isSequence = w.isSequence :=
  h.congr (fun _ _ => rfl) (fun _ _ => rfl) (fun _ _ => rfl) fun _ _ => rfl

theorem isDict {v w : PyVal} (h : Same v w) : v.isDict = w.isDict :=
  h.congr (fun _ _ => rfl) (fun _ _ => rfl) (fun _ _ => rfl) fun _ _ => rfl

theorem truth_bool {v : PyVal} {b : Bool} (h : Same v (bool b)) : v.truth = b := by
  cases h with
  | refl => rfl
  | intBool b => cases b <;> rfl
  | sequence _ hw _ => cases hw

/-- Items whose keys and values are the same have each other as counterparts. -/
theorem counterparts {xs zs : List (PyVal × PyVal)}
    (hkeys : List.Forall₂ Same (xs.map Prod.fst) (zs.map Prod.fst))
    (hvalues : List.Forall₂ Same (xs.map Prod.snd) (zs.map Prod.snd)) :
    (∀ p ∈ xs, ∃ q ∈ zs, Same p.1 q.1 ∧ Same p.2 q.2) ∧
      ∀ q ∈ zs, ∃ p ∈ xs, Same p.1 q.1 ∧ Same p.2 q.2 := by
  induction xs generalizing zs with
  | nil =>
      cases zs with
      | nil =>
          exact ⟨fun _ hp => absurd hp List.not_mem_nil, fun _ hq => absurd hq List.not_mem_nil⟩
      | cons z zs => cases hkeys
  | cons x xs ih =>
      cases zs with
      | nil => cases hkeys
      | cons z zs =>
          rw [List.map_cons, List.map_cons, List.forall₂_cons] at hkeys hvalues
          obtain ⟨hleft, hright⟩ := ih hkeys.2 hvalues.2
          constructor
          · intro p hp
            rcases List.mem_cons.mp hp with rfl | hrest
            · exact ⟨z, List.mem_cons_self, hkeys.1, hvalues.1⟩
            · obtain ⟨q, hq, hsame⟩ := hleft p hrest
              exact ⟨q, List.mem_cons_of_mem _ hq, hsame⟩
          · intro q hq
            rcases List.mem_cons.mp hq with rfl | hrest
            · exact ⟨x, List.mem_cons_self, hkeys.1, hvalues.1⟩
            · obtain ⟨p, hp, hsame⟩ := hright q hrest
              exact ⟨p, List.mem_cons_of_mem _ hp, hsame⟩

/-- Whatever is the same as a dictionary is one, with the same items in some order. -/
theorem of_dict {v : PyVal} {ys : List (PyVal × PyVal)} (h : Same v (PyVal.dict ys)) :
    ∃ xs, v = PyVal.dict xs ∧ (∀ p ∈ xs, ∃ q ∈ ys, Same p.1 q.1 ∧ Same p.2 q.2) ∧
      ∀ q ∈ ys, ∃ p ∈ xs, Same p.1 q.1 ∧ Same p.2 q.2 := by
  cases h with
  | refl =>
      exact ⟨ys, rfl, fun p hp => ⟨p, hp, refl _, refl _⟩, fun q hq => ⟨q, hq, refl _, refl _⟩⟩
  | sequence _ hw _ => cases hw
  | dict hperm hkeys hvalues =>
      obtain ⟨hleft, hright⟩ := counterparts hkeys hvalues
      refine ⟨_, rfl, ?_, fun q hq => hright q (hperm.mem_iff.mpr hq)⟩
      intro p hp
      obtain ⟨q, hq, hsame⟩ := hleft p hp
      exact ⟨q, hperm.mem_iff.mp hq, hsame⟩

theorem map_toNat_injective {s t : List UInt8}
    (h : s.map (fun b => b.toNat) = t.map (fun b => b.toNat)) : s = t :=
  List.map_injective_iff.mpr (fun _ _ hab => UInt8.toNat_inj.mp hab) h

/-- A value that is the same as a string is equal to it, and to no other one. -/
theorem eqStr_iff {v : PyVal} {s t : List UInt8} (h : Same v (PyVal.str t))
    (ht : t.all (· < 128) = true) :
    v.eqStr s = true ↔ s = t := by
  cases h with
  | refl => simp [eqStr, eq_comm]
  | unicodeStr heq =>
      simp only [eqStr, decide_eq_true_eq] at heq ⊢
      constructor
      · rintro ⟨hs, _⟩
        exact map_toNat_injective (hs.symm.trans heq.1)
      · rintro rfl
        exact heq
  | sequence _ hw _ => cases hw

/-- A field of a dictionary with these fields. -/
theorem field {v : PyVal} {fields : List (String × PyVal)}
    (h : Same v (PyVal.dict (fields.map fun f => (str (bytes f.1), f.2))))
    (hnodup : (fields.map fun f => bytes f.1).Nodup)
    (hascii : (fields.map fun f => bytes f.1).all (fun s => s.all (· < 128)) = true) :
    ∃ data, v = PyVal.dict data ∧ ∀ f ∈ fields, ∃ w, get data f.1 = some w ∧ Same w f.2 := by
  obtain ⟨data, rfl, hleft, hright⟩ := h.of_dict
  have hname : ∀ f ∈ fields, (bytes f.1).all (· < 128) = true := fun f hf =>
    List.all_eq_true.mp hascii _ (List.mem_map.mpr ⟨f, hf, rfl⟩)
  refine ⟨data, rfl, ?_⟩
  intro f hf
  obtain ⟨p, hp, hkey, _⟩ := hright _ (List.mem_map.mpr ⟨f, hf, rfl⟩)
  have hfound : p.1.eqStr (bytes f.1) = true := (eqStr_iff hkey (hname f hf)).mpr rfl
  -- the first item with that key
  have hsome : (data.find? fun item => item.1.eqStr (bytes f.1)).isSome :=
    List.find?_isSome.mpr ⟨p, hp, hfound⟩
  obtain ⟨first, hfirst⟩ := Option.isSome_iff_exists.mp hsome
  refine ⟨first.2, by rw [get, hfirst]; rfl, ?_⟩
  obtain ⟨q, hq, hkey', hvalue⟩ := hleft first (List.mem_of_find?_eq_some hfirst)
  obtain ⟨g, hg, rfl⟩ := List.mem_map.mp hq
  have heq : bytes f.1 = bytes g.1 :=
    (eqStr_iff hkey' (hname g hg)).mp (by simpa using List.find?_some hfirst)
  have hfield : f = g := List.inj_on_of_nodup_map hnodup hf hg heq
  rw [hfield]
  exact hvalue

end Same

end PyVal

namespace BaseSerializer

open PyVal

/-! ## Objects that are the same -/

/-- Two attributes that both are there. -/
def SameAttr : Option PyVal → Option PyVal → Prop
  | some v, some w => Same v w
  | _, _ => False

/-- The objects are of one class and have the same attributes. -/
def SameMessage : Message → Message → Prop
  | .request a, .request b => SameAttr a.className b.className ∧
      SameAttr a.methodName b.methodName ∧ SameAttr a.args b.args ∧ SameAttr a.kwargs b.kwargs ∧ SameAttr a.meta b.meta
  | .result a, .result b => SameAttr a.result b.result ∧ SameAttr a.exc b.exc ∧
      SameAttr a.meta b.meta
  | _, _ => False

/-- A request with string names, list or tuple args and a dictionary of kwargs, or a
result without an exception. -/
inductive Plain : Message → Prop where
  | request (className methodName args kwargs value : PyVal) :
      className.isBasestring = true → methodName.isBasestring = true → args.isSequence = true →
      kwargs.isDict = true →
      Plain (.request ⟨some className, some methodName, some args, some kwargs, some value⟩)
  | result (result value : PyVal) : Plain (.result ⟨some result, some .none, some value⟩)

/-- The fields `dumps` writes. -/
def fields : Message → List (String × PyVal)
  | .request request => [
      ("class_name", request.className.getD .none), ("method_name", request.methodName.getD .none),
      ("args", request.args.getD .none), ("kwargs", request.kwargs.getD .none),
      ("meta", request.meta.getD .none), ("is_request", .bool true)]
  | .result result => [
      ("result", result.result.getD .none), ("exc", .none), ("meta", result.meta.getD .none),
      ("is_request", .bool false)]
  | .other _ => []

/-- The dictionary of these fields. -/
def dictOf (x : Message) : List (PyVal × PyVal) := (fields x).map fun f => (str (bytes f.1), f.2)

/-- The module writes the dictionary of `x`, and reads one that is the same. -/
def FaithfulOn (codec : Codec) (default : PyVal → Except Exc PyVal) (x : Message) : Prop :=
  ∃ buff v, codec.dumps default (.dict (dictOf x)) = .ok buff ∧ codec.loads (some buff) = .ok v ∧
    Same v (.dict (dictOf x))

/-- What `dumps` writes is loaded as an object that is the same. -/
def RoundTrips (S : SpecialMethods) (codec : Codec) (default : PyVal → Except Exc PyVal)
    (x : Message) : Prop :=
  ∃ buff y, dumps S codec default x = .ok buff ∧ loads codec (some buff) = .ok y ∧ SameMessage y x

/-- The object has no meta that `loads` forgets. -/
def metaKept : Message → Prop
  | .request request => request.meta = some .none
  | _ => True

variable {S : SpecialMethods} {codec : Codec} {default : PyVal → Except Exc PyVal} {x : Message}

theorem toDict_plain (hx : Plain x) : toDict S x = .ok (dictOf x) := by
  cases hx with
  | request => rfl
  | result => rfl

theorem dumps_plain (hx : Plain x) {buff : List UInt8}
    (h : codec.dumps default (.dict (dictOf x)) = .ok buff) :
    dumps S codec default x = .ok buff := by
  have hne : (dictOf x).isEmpty = false := by
    cases hx with
    | request => rfl
    | result => rfl
  unfold dumps
  rw [toDict_plain hx]
  show wrapErrors .serializationError
    (if (dictOf x).isEmpty then .error { cls := .typeError }
      else codec.dumps default (.dict (dictOf x))) = _
  rw [hne, h]
  rfl

/-- The fields of the dictionary that has been read. -/
theorem fields_loaded (hx : Plain x) {v : PyVal} (h : Same v (.dict (dictOf x))) :
    ∃ data, v = .dict data ∧ ∀ f ∈ fields x, ∃ w, get data f.1 = some w ∧ Same w f.2 := by
  apply Same.field h
  · cases hx with
    | request =>
        show [bytes "class_name", bytes "method_name", bytes "args", bytes "kwargs", bytes "meta",
          bytes "is_request"].Nodup
        decide
    | result =>
        show [bytes "result", bytes "exc", bytes "meta", bytes "is_request"].Nodup
        decide
  · cases hx with
    | request =>
        show [bytes "class_name", bytes "method_name", bytes "args", bytes "kwargs", bytes "meta",
          bytes "is_request"].all (fun s => s.all (· < 128)) = true
        decide
    | result =>
        show [bytes "result", bytes "exc", bytes "meta", bytes "is_request"].all
          (fun s => s.all (· < 128)) = true
        decide

/-- A dictionary that is the same as that of a request is loaded as a request, without a
meta. -/
theorem loadRequest_same {className methodName args kwargs value : PyVal}
    (hclass : className.isBasestring = true) (hmethod : methodName.isBasestring = true)
    (hargs : args.isSequence = true) (hkwargs : kwargs.isDict = true) {data : List (PyVal × PyVal)}
    (hdata : ∀ f ∈ fields (.request ⟨some className, some methodName, some args, some kwargs,
      some value⟩), ∃ w, get data f.1 = some w ∧ Same w f.2) :
    ((get data "is_request").getD (.bool true)).truth = true ∧
      ∃ a b c d, Same a className ∧ Same b methodName ∧ Same c args ∧ Same d kwargs ∧
        loadRequest data = .ok (.request ⟨some a, some b, some c, some d, some .none⟩) := by
  obtain ⟨a, ha, hsa⟩ := hdata ("class_name", className) (by simp [fields])
  obtain ⟨b, hb, hsb⟩ := hdata ("method_name", methodName) (by simp [fields])
  obtain ⟨c, hc, hsc⟩ := hdata ("args", args) (by simp [fields])
  obtain ⟨d, hd, hsd⟩ := hdata ("kwargs", kwargs) (by simp [fields])
  obtain ⟨e, he, hse⟩ := hdata ("is_request", .bool true) (by simp [fields])
  constructor
  · rw [he]
    exact hse.truth_bool
  · refine ⟨a, b, c, d, hsa, hsb, hsc, hsd, ?_⟩
    rw [← hsa.isBasestring] at hclass
    rw [← hsb.isBasestring] at hmethod
    rw [← hsc.isSequence] at hargs
    rw [← hsd.isDict] at hkwargs
    simp only [loadRequest, ha, hb, hc, hd, Option.getD_some, hclass, hmethod, hargs, hkwargs,
      Bool.not_true, Bool.or_false, Bool.false_eq_true, if_false]
    rfl

/-- One that is the same as that of a result is loaded as a result that is the same. -/
theorem loadResult_same {result value : PyVal} {data : List (PyVal × PyVal)}
    (hdata : ∀ f ∈ fields (.result ⟨some result, some .none, some value⟩),
      ∃ w, get data f.1 = some w ∧ Same w f.2) :
    ((get data "is_request").getD (.bool true)).truth = false ∧
      SameMessage (loadResult data) (.result ⟨some result, some .none, some value⟩) := by
  obtain ⟨a, ha, hsa⟩ := hdata ("result", result) (by simp [fields])
  obtain ⟨b, hb, hsb⟩ := hdata ("exc", .none) (by simp [fields])
  obtain ⟨c, hc, hsc⟩ := hdata ("meta", value) (by simp [fields])
  obtain ⟨e, he, hse⟩ := hdata ("is_request", .bool false) (by simp [fields])
  constructor
  · rw [he]
    exact hse.truth_bool
  · have hnone : b = .none := by
      cases hsb with
      | refl => rfl
      | sequence _ hw _ => cases hw
    unfold loadResult
    simp only [ha, hb, hc, hnone]
    exact ⟨hsa, Same.refl _, hsc⟩

/-- The object loaded, which is the same if and only if no meta is forgotten. -/
theorem loads_plain (hx : Plain x) {buff : List UInt8} {v : PyVal}
    (hloads : codec.loads (some buff) = .ok v) (hsame : Same v (.dict (dictOf x))) :
    ∃ y, loads codec (some buff) = .ok y ∧ (SameMessage y x ↔ metaKept x) := by
  obtain ⟨data, rfl, hdata⟩ := fields_loaded hx hsame
  have hload : loads codec (some buff) = wrapErrors .deserializationError
      (if ((get data "is_request").getD (.bool true)).truth then loadRequest data
        else .ok (loadResult data)) := by
    unfold loads
    rw [hloads]
    rfl
  cases hx with
  | request className methodName args kwargs value hclass hmethod hargs hkwargs =>
      obtain ⟨htrue, a, b, c, d, hsa, hsb, hsc, hsd, hrequest⟩ :=
        loadRequest_same hclass hmethod hargs hkwargs hdata
      rw [if_pos htrue, hrequest] at hload
      refine ⟨_, hload, ?_, ?_⟩
      · intro hmessage
        exact congrArg some hmessage.2.2.2.2.none_left
      · intro hmeta
        cases hmeta
        exact ⟨hsa, hsb, hsc, hsd, Same.refl _⟩
  | result result value =>
      obtain ⟨hfalse, hmessage⟩ := loadResult_same hdata
      rw [hfalse] at hload
      exact ⟨_, hload, fun _ => trivial, fun _ => hmessage⟩

theorem roundTrips_of_metaKept (hx : Plain x) (hcodec : FaithfulOn codec default x)
    (hmeta : metaKept x) : RoundTrips S codec default x := by
  obtain ⟨buff, v, hdumps, hloads, hsame⟩ := hcodec
  obtain ⟨y, hy, hiff⟩ := loads_plain hx hloads hsame
  exact ⟨buff, y, dumps_plain hx hdumps, hy, hiff.mpr hmeta⟩

theorem metaKept_of_roundTrips (hx : Plain x) (hcodec : FaithfulOn codec default x)
    (h : RoundTrips S codec default x) : metaKept x := by
  obtain ⟨buff, v, hdumps, hloads, hsame⟩ := hcodec
  obtain ⟨y, hy, hiff⟩ := loads_plain hx hloads hsame
  obtain ⟨buff', y', hbuff, hy', hmessage⟩ := h
  rw [dumps_plain hx hdumps] at hbuff
  rw [← Except.ok.inj hbuff, hy] at hy'
  rw [← Except.ok.inj hy'] at hmessage
  exact hiff.mp hmessage

/-- An object is loaded as it was dumped if and only if it is a result, or a request
without a meta. -/
theorem round_trip_iff (S : SpecialMethods) (codec : Codec) (default : PyVal → Except Exc PyVal)
    (x : Message) (hx : Plain x) (hcodec : FaithfulOn codec default x) :
    RoundTrips S codec default x ↔ metaKept x :=
  ⟨metaKept_of_roundTrips hx hcodec, roundTrips_of_metaKept hx hcodec⟩

/-! ## A request with a meta -/

/-- A call of `Calculator.add(1, 2)`. -/
def addRequest (value : PyVal) : Message :=
  .request ⟨some (.str (bytes "Calculator")), some (.str (bytes "add")),
    some (.tuple [.int 1, .int 2]), some (.dict []), some value⟩

/-- The text `json` makes of it, from that of its meta. -/
def addText (value : String) : List UInt8 :=
  bytes ("\x7b\"class_name\": \"Calculator\", \"method_name\": \"add\", \"args\": [1, 2], \"kwargs\": " ++
    "\x7b\x7d, \"meta\": " ++ value ++ ", \"is_request\": true\x7d")

/-- What `json` reads from such a text. -/
def addLoaded (value : PyVal) : PyVal :=
  .dict [(.unicode "class_name".toList, .unicode "Calculator".toList),
    (.unicode "method_name".toList, .unicode "add".toList),
    (.unicode "args".toList, .list [.int 1, .int 2]), (.unicode "kwargs".toList, .dict []),
    (.unicode "meta".toList, value), (.unicode "is_request".toList, .bool true)]

/-- `json`, as far as it is needed here: the request with the meta `"m"`, and without
one. -/
def addJson : Codec where
  loads := fun buff =>
    if buff = some (addText "\"m\"") then .ok (addLoaded (.unicode ['m']))
    else if buff = some (addText "null") then .ok (addLoaded .none)
    else .error { cls := .valueError, msg := "No JSON object could be decoded" }
  dumps := fun _ value =>
    match value with
    | .dict items =>
      match PyVal.get items "meta" with
      | some (.str _) => .ok (addText "\"m\"")
      | _ => .ok (addText "null")
    | _ => .ok (addText "null")

theorem plain_addRequest (value : PyVal) : Plain (addRequest value) :=
  Plain.request _ _ _ _ value rfl rfl rfl rfl

/-- The dictionary read is the one written. -/
theorem same_addRequest {value loaded : PyVal} (h : Same loaded value) :
    Same (addLoaded loaded) (.dict (dictOf (addRequest value))) := by
  have hname : ∀ name : String,
      (unicode name.toList).eqStr (bytes name) = true →
        Same (unicode name.toList) (str (bytes name)) := fun _ heq => Same.unicodeStr heq
  apply Same.dict (List.Perm.refl _)
  · refine .cons (hname _ ?_) (.cons (hname _ ?_) (.cons (hname _ ?_) (.cons (hname _ ?_)
      (.cons (hname _ ?_) (.cons (hname _ ?_) .nil)))))
    all_goals decide +kernel
  · refine .cons (hname _ ?_) (.cons (hname _ ?_) (.cons ?_ (.cons (Same.refl _)
      (.cons h (.cons (Same.refl _) .nil)))))
    · decide +kernel
    · decide +kernel
    · exact Same.sequence rfl rfl (.cons (Same.refl _) (.cons (Same.refl _) .nil))

theorem loads_addJson (buff : Option (List UInt8)) :
    addJson.loads buff =
      if buff = some (addText "\"m\"") then .ok (addLoaded (.unicode ['m']))
      else if buff = some (addText "null") then .ok (addLoaded .none)
      else .error { cls := .valueError, msg := "No JSON object could be decoded" } := rfl

theorem faithful_addRequest : FaithfulOn addJson jsonDefault (addRequest .none) := by
  refine ⟨addText "null", addLoaded .none, rfl, ?_, same_addRequest (Same.refl _)⟩
  have hne : some (addText "null") ≠ some (addText "\"m\"") := by decide +kernel
  rw [loads_addJson, if_neg hne, if_pos rfl]

theorem faithful_addRequest_meta :
    FaithfulOn addJson jsonDefault (addRequest (.str (bytes "m"))) := by
  have hsame : Same (.unicode ['m']) (.str (bytes "m")) := Same.unicodeStr (by decide)
  refine ⟨addText "\"m\"", addLoaded (.unicode ['m']), rfl, ?_, same_addRequest hsame⟩
  rw [loads_addJson, if_pos rfl]

/-- No instances of other classes are looked into. -/
def noMethods : SpecialMethods :=
  ⟨fun _ => .ok [], fun _ => .ok (), fun _ => .ok [], fun _ => .ok []⟩

/-- A request without a meta is loaded as it was dumped. -/
theorem round_trip_iff_add : RoundTrips noMethods addJson jsonDefault (addRequest .none) :=
  (round_trip_iff noMethods addJson jsonDefault (addRequest .none) (plain_addRequest .none)
    faithful_addRequest).mpr rfl

/-- One with a meta is not. -/
theorem meta_forgotten :
    ¬ ∀ S codec default x, Plain x → FaithfulOn codec default x → RoundTrips S codec default x := by
  intro h
  have hroundTrips := h noMethods addJson jsonDefault _ (plain_addRequest (.str (bytes "m")))
    faithful_addRequest_meta
  have hmeta := metaKept_of_roundTrips (plain_addRequest _) faithful_addRequest_meta hroundTrips
  cases hmeta

end BaseSerializer

end SummerRpc
